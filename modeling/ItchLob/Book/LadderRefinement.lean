import ItchLob.Book.LadderSide

set_option autoImplicit false

namespace ItchLob.Book

open Itch FiniteMap

namespace LadderBook

theorem snapToTick_toNat (price tick : UInt32) :
    (snapToTick price tick).toNat = price.toNat / tick.toNat * tick.toNat := by
  have bound := Nat.div_mul_le_self price.toNat tick.toNat
  have small := price.toNat_lt
  rw [snapToTick, UInt32.toNat_mul, UInt32.toNat_div]
  exact Nat.mod_eq_of_lt (by omega)

theorem windowLow_toNat (window : UInt32 → UInt64) (price : UInt32) :
    (windowLow window price).toNat = price.toNat - (window price).toNat := by
  have small := price.toNat_lt
  unfold windowLow
  by_cases less : window price < price.toUInt64
  · rw [if_pos less, UInt64.toNat_toUInt32, UInt64.toNat_sub_of_le _ _ (UInt64.le_of_lt less),
      UInt32.toNat_toUInt64]
    exact Nat.mod_eq_of_lt (by omega)
  · rw [if_neg less, UInt32.toNat_zero]
    rw [UInt64.lt_iff_toNat_lt, UInt32.toNat_toUInt64] at less
    omega

theorem windowHigh_toNat (window : UInt32 → UInt64) (price : UInt32)
    (narrow : (window price).toNat < 2 ^ 63) :
    (windowHigh window price).toNat = min (price.toNat + (window price).toNat) (2 ^ 32 - 1) := by
  have small := price.toNat_lt
  have sum : (price.toUInt64 + window price).toNat = price.toNat + (window price).toNat := by
    rw [UInt64.toNat_add, UInt32.toNat_toUInt64]
    exact Nat.mod_eq_of_lt (by omega)
  have top : (0xFFFFFFFF : UInt64).toNat = 2 ^ 32 - 1 := rfl
  unfold windowHigh
  by_cases le : price.toUInt64 + window price ≤ 0xFFFFFFFF
  · rw [show min (price.toUInt64 + window price) 0xFFFFFFFF = price.toUInt64 + window price from if_pos le]
    rw [UInt64.le_iff_toNat_le, sum, top] at le
    rw [UInt64.toNat_toUInt32, sum]
    omega
  · rw [show min (price.toUInt64 + window price) 0xFFFFFFFF = 0xFFFFFFFF from if_neg le]
    rw [UInt64.le_iff_toNat_le, sum, top] at le
    rw [UInt64.toNat_toUInt32, top]
    omega

def exactWindow (window : UInt32 → UInt64) (price : Nat) : Nat := (window (UInt32.ofNat price)).toNat

theorem exactWindow_toNat (window : UInt32 → UInt64) (price : UInt32) :
    exactWindow window price.toNat = (window price).toNat := by
  rw [exactWindow, UInt32.ofNat_toNat]

-- The production window_pct of 0.30, taken exactly.
def thirty (price : UInt32) : UInt64 := price.toUInt64 * 3 / 10

theorem thirty_toNat (price : UInt32) : (thirty price).toNat = price.toNat * 3 / 10 := by
  have small := price.toNat_lt
  have product : (price.toUInt64 * 3).toNat = price.toNat * 3 := by
    rw [UInt64.toNat_mul, UInt32.toNat_toUInt64]
    exact Nat.mod_eq_of_lt (by change price.toNat * 3 < _; omega)
  rw [thirty, UInt64.toNat_div, product]
  rfl

theorem thirty_narrow (price : UInt32) : (thirty price).toNat < 2 ^ 63 := by
  have small := price.toNat_lt
  rw [thirty_toNat]
  omega

def range (b : LadderBook) : Range := ⟨b.minPrice.toNat, b.maxPrice.toNat⟩

structure Fits (tick : UInt32) (window : UInt32 → UInt64) (b : LadderBook) : Prop where
  tickSize : b.tickSize = tick
  conversion : b.window = window
  aligned : tick.toNat ∣ b.range.lo
  ordered : b.range.lo ≤ b.range.hi
  ticks : b.numTicks = b.range.ticks tick.toNat

def side (b : LadderBook) (bid : Bool) : LadderSide := if bid then b.bid else b.ask

structure Valid (tick : UInt32) (window : UInt32 → UInt64) (b : LadderBook) (d : Bool → Depth) : Prop where
  fits : Fits tick window b
  holds : ∀ bid, (b.side bid).Holds b.range.lo tick.toNat b.numTicks bid (d bid)

abbrev Simulates (tick : UInt32) (window : UInt32 → UInt64) :=
  Related locator range (Valid tick window)

section Ladder

variable {tick : UInt32} {window : UInt32 → UInt64} {b : LadderBook} {d : Bool → Depth} {price : UInt32}

theorem ticks_toNat (lo hi tick : UInt32) (ordered : lo.toNat ≤ hi.toNat) :
    LadderBook.ticks lo hi tick = Range.ticks tick.toNat ⟨lo.toNat, hi.toNat⟩ := by
  rw [LadderBook.ticks, Range.ticks, UInt32.toNat_sub_of_le _ _ (UInt32.le_iff_toNat_le.mpr ordered)]

theorem index_lt_iff {lo hi t i : Nat} (positive : 0 < t) (ordered : lo ≤ hi) :
    i < (hi - lo) / t + 1 ↔ lo + i * t ≤ hi := by
  rw [Nat.lt_succ_iff, Nat.le_div_iff_mul_le positive]
  omega

theorem Fits.idx (fits : Fits tick window b) (positive : 0 < tick.toNat) {i : Nat}
    (price_eq : price.toNat = b.range.lo + i * tick.toNat) : b.idx price = i := by
  have above : b.minPrice ≤ price := UInt32.le_iff_toNat_le.mpr (by
    change b.range.lo ≤ _
    omega)
  rw [LadderBook.idx, fits.tickSize, UInt32.toNat_div, UInt32.toNat_sub_of_le _ _ above, price_eq]
  change (b.range.lo + i * tick.toNat - b.range.lo) / tick.toNat = i
  rw [Nat.add_sub_cancel_left, Nat.mul_div_cancel _ positive]

theorem Fits.priceAt (fits : Fits tick window b) (positive : 0 < tick.toNat) {i : Nat}
    (inside : i < b.numTicks) : (b.priceAt i).toNat = b.range.lo + i * tick.toNat := by
  rw [fits.ticks, Range.ticks, index_lt_iff positive fits.ordered] at inside
  have top := b.maxPrice.toNat_lt
  change b.range.hi < 2 ^ 32 at top
  have product : i * tick.toNat < 2 ^ 32 := by omega
  have index : i < 2 ^ 32 := lt_of_le_of_lt (Nat.le_mul_of_pos_right i positive) product
  rw [LadderBook.priceAt, fits.tickSize, UInt32.toNat_add, UInt32.toNat_mul,
    UInt32.toNat_ofNat_of_lt' index, Nat.mod_eq_of_lt product]
  exact Nat.mod_eq_of_lt (by change b.range.lo + _ < _; omega)

theorem Fits.onGrid (fits : Fits tick window b) (positive : 0 < tick.toNat)
    (covered : b.range.lo ≤ price.toNat ∧ price.toNat ≤ b.range.hi) (multiple : tick.toNat ∣ price.toNat) :
    ∃ i, i < b.numTicks ∧ price.toNat = b.range.lo + i * tick.toNat := by
  obtain ⟨i, equal⟩ := (Nat.dvd_sub multiple fits.aligned : tick.toNat ∣ price.toNat - b.range.lo)
  have here : price.toNat = b.range.lo + i * tick.toNat := by
    rw [Nat.mul_comm]
    omega
  refine ⟨i, ?_, here⟩
  rw [fits.ticks, Range.ticks, index_lt_iff positive fits.ordered, ← here]
  exact covered.2

theorem Fits.remainder (fits : Fits tick window b) (above : b.range.lo ≤ price.toNat) :
    (price - b.minPrice) % b.tickSize = 0 ↔ price.toNat % tick.toNat = 0 := by
  rw [← UInt32.toNat_inj, UInt32.toNat_mod, fits.tickSize,
    UInt32.toNat_sub_of_le _ _ (UInt32.le_iff_toNat_le.mpr above), UInt32.toNat_zero]
  change (price.toNat - b.range.lo) % tick.toNat = 0 ↔ _
  rw [← Nat.dvd_iff_mod_eq_zero, ← Nat.dvd_iff_mod_eq_zero, Nat.dvd_sub_iff_left above fits.aligned]

theorem grown_lo (window : Nat → Nat) (t : Nat) (r : Range) (p : Nat) (below : p < r.lo) :
    (r.grown t window p).lo ≤ p := by
  simp only [Range.grown, below, if_true, Range.around]
  exact (Nat.div_mul_le_self _ _).trans (Nat.sub_le _ _)

theorem grown_hi (window : Nat → Nat) (t : Nat) (r : Range) {p : Nat} (fits : p < 2 ^ 32)
    (above : r.hi < p) : p ≤ (r.grown t window p).hi := by
  simp only [Range.grown, above, if_true, Range.around]
  omega

theorem grown_covers (window : Nat → Nat) (t : Nat) (r : Range) {p : Nat} (fits : p < 2 ^ 32) :
    (r.grown t window p).lo ≤ p ∧ p ≤ (r.grown t window p).hi := by
  constructor
  · by_cases below : p < r.lo
    · exact grown_lo window t r p below
    · simp only [Range.grown, below, if_false]
      omega
  · by_cases above : r.hi < p
    · exact grown_hi window t r fits above
    · simp only [Range.grown, above, if_false]
      omega

theorem grown_wider (window : Nat → Nat) (t : Nat) (r : Range) {p : Nat} (fits : p < 2 ^ 32) :
    (r.grown t window p).lo ≤ r.lo ∧ r.hi ≤ (r.grown t window p).hi := by
  constructor
  · by_cases below : p < r.lo
    · exact (grown_lo window t r p below).trans (Nat.le_of_lt below)
    · simp [Range.grown, below]
  · by_cases above : r.hi < p
    · exact (Nat.le_of_lt above).trans (grown_hi window t r fits above)
    · simp [Range.grown, above]

theorem grown_aligned (window : Nat → Nat) {t : Nat} {r : Range} (aligned : t ∣ r.lo) (p : Nat) :
    t ∣ (r.grown t window p).lo := by
  by_cases below : p < r.lo
  · simp only [Range.grown, below, if_true, Range.around]
    exact Nat.dvd_mul_left _ _
  · simpa [Range.grown, below] using aligned

theorem min_toNat (a b : UInt32) : (min a b).toNat = min a.toNat b.toNat := by
  by_cases le : a ≤ b
  · rw [show min a b = a from if_pos le]
    rw [UInt32.le_iff_toNat_le] at le
    omega
  · rw [show min a b = b from if_neg le]
    rw [UInt32.le_iff_toNat_le] at le
    omega

theorem max_toNat (a b : UInt32) : (max a b).toNat = max a.toNat b.toNat := by
  by_cases le : a ≤ b
  · rw [show max a b = b from if_pos le]
    rw [UInt32.le_iff_toNat_le] at le
    omega
  · rw [show max a b = a from if_neg le]
    rw [UInt32.le_iff_toNat_le] at le
    omega

theorem Fits.newMin (fits : Fits tick window b) (price : UInt32) :
    (if price < b.minPrice then min b.minPrice (snapToTick (windowLow b.window price) b.tickSize)
      else b.minPrice).toNat =
      (b.range.grown tick.toNat (exactWindow window) price.toNat).lo := by
  by_cases below : price < b.minPrice
  · have less : price.toNat < b.range.lo := UInt32.lt_iff_toNat_lt.mp below
    have bound := grown_lo (exactWindow window) tick.toNat b.range price.toNat less
    simp only [Range.grown, less, if_true, Range.around, exactWindow_toNat] at bound ⊢
    rw [if_pos below, min_toNat, snapToTick_toNat, windowLow_toNat, fits.tickSize, fits.conversion]
    change min b.range.lo _ = _
    omega
  · have more : ¬ price.toNat < b.range.lo := fun h => below (UInt32.lt_iff_toNat_lt.mpr h)
    rw [if_neg below]
    simp only [Range.grown, more, if_false]
    rfl

theorem Fits.newMax (fits : Fits tick window b) (narrow : ∀ p, (window p).toNat < 2 ^ 63)
    (price : UInt32) :
    (if b.maxPrice < price then max b.maxPrice (windowHigh b.window price) else b.maxPrice).toNat =
      (b.range.grown tick.toNat (exactWindow window) price.toNat).hi := by
  by_cases above : b.maxPrice < price
  · have less : b.range.hi < price.toNat := UInt32.lt_iff_toNat_lt.mp above
    have bound := grown_hi (exactWindow window) tick.toNat b.range price.toNat_lt less
    simp only [Range.grown, less, if_true, Range.around, exactWindow_toNat] at bound ⊢
    rw [if_pos above, max_toNat, fits.conversion, windowHigh_toNat window price (narrow price)]
    change max b.range.hi _ = _
    omega
  · have more : ¬ b.range.hi < price.toNat := fun h => above (UInt32.lt_iff_toNat_lt.mpr h)
    rw [if_neg above]
    simp only [Range.grown, more, if_false]
    rfl

theorem Fits.shift (fits : Fits tick window b) (positive : 0 < tick.toNat) {newMin newMax : UInt32}
    (lower : newMin.toNat ≤ b.range.lo) (upper : b.range.hi ≤ newMax.toNat)
    (aligned : tick.toNat ∣ newMin.toNat) :
    let offset := (b.minPrice - newMin).toNat / b.tickSize.toNat
    b.range.lo = newMin.toNat + offset * tick.toNat ∧
      offset + b.numTicks ≤ LadderBook.ticks newMin newMax tick := by
  intro offset
  have ordered := fits.ordered
  have span : (b.minPrice - newMin).toNat = b.range.lo - newMin.toNat :=
    UInt32.toNat_sub_of_le _ _ (UInt32.le_iff_toNat_le.mpr lower)
  have whole : offset * tick.toNat = b.range.lo - newMin.toNat := by
    simp only [offset, span, fits.tickSize]
    exact Nat.div_mul_cancel (Nat.dvd_sub fits.aligned aligned)
  have split : (b.range.hi - newMin.toNat) / tick.toNat =
      (b.range.hi - b.range.lo) / tick.toNat + offset := by
    rw [show b.range.hi - newMin.toNat = b.range.hi - b.range.lo + offset * tick.toNat by omega,
      Nat.add_mul_div_right _ _ positive]
  have wider : (b.range.hi - newMin.toNat) / tick.toNat ≤ (newMax.toNat - newMin.toNat) / tick.toNat :=
    Nat.div_le_div_right (by omega)
  refine ⟨by omega, ?_⟩
  rw [fits.ticks, ticks_toNat newMin newMax _ (by omega), Range.ticks, Range.ticks]
  change offset + ((b.range.hi - b.range.lo) / tick.toNat + 1) ≤
    (newMax.toNat - newMin.toNat) / tick.toNat + 1
  omega

theorem Fits.resized (fits : Fits tick window b) {newMin newMax : UInt32} (lower : newMin.toNat ≤ b.range.lo)
    (upper : b.range.hi ≤ newMax.toNat) (aligned : tick.toNat ∣ newMin.toNat) :
    Fits tick window (b.resizeRange newMin newMax (LadderBook.ticks newMin newMax tick)) := by
  have ordered := fits.ordered
  refine ⟨fits.tickSize, fits.conversion, aligned, ?_, ticks_toNat newMin newMax _ (by omega)⟩
  change newMin.toNat ≤ newMax.toNat
  omega

theorem resizeRange_valid (valid : Valid tick window b d) (positive : 0 < tick.toNat)
    (empty : ∀ bid p, (d bid).orders p = 0 → (d bid).shares p = 0) (newMin newMax : UInt32)
    (lower : newMin.toNat ≤ b.range.lo) (upper : b.range.hi ≤ newMax.toNat)
    (aligned : tick.toNat ∣ newMin.toNat) :
    Valid tick window (b.resizeRange newMin newMax (LadderBook.ticks newMin newMax tick)) d := by
  obtain ⟨low, room⟩ := valid.fits.shift positive lower upper aligned
  refine ⟨valid.fits.resized lower upper aligned, fun bid => ?_⟩
  have moved := (valid.holds bid).resize positive (empty bid) low room
  cases bid <;> exact moved

theorem inRange_iff (b : LadderBook) (price : UInt32) : b.inRange price = b.range.covers price.toNat := by
  rw [Bool.eq_iff_iff]
  simp only [inRange, Range.covers, Bool.and_eq_true, decide_eq_true_eq, UInt32.le_iff_toNat_le]
  rfl

theorem Fits.growth (fits : Fits tick window b) (narrow : ∀ p, (window p).toNat < 2 ^ 63)
    (outside : b.range.covers price.toNat = false) :
    let grown := b.range.grown tick.toNat (exactWindow window) price.toNat
    if grown.ticks tick.toNat ≤ kMaxTicks then
      ∃ newMin newMax : UInt32, newMin.toNat = grown.lo ∧ newMax.toNat = grown.hi ∧
        newMin.toNat ≤ b.range.lo ∧ b.range.hi ≤ newMax.toNat ∧ tick.toNat ∣ newMin.toNat ∧
        b.growToInclude price = (true, b.resizeRange newMin newMax (LadderBook.ticks newMin newMax tick))
    else b.growToInclude price = (false, b) := by
  intro grown
  have low := fits.newMin price
  have high := fits.newMax narrow price
  have covers := grown_covers (exactWindow window) tick.toNat b.range price.toNat_lt
  unfold growToInclude
  revert low high
  generalize (if price < b.minPrice then
    min b.minPrice (snapToTick (windowLow b.window price) b.tickSize) else b.minPrice) = newMin
  generalize (if b.maxPrice < price then max b.maxPrice (windowHigh b.window price)
    else b.maxPrice) = newMax
  intro low high
  have moved : ¬ (newMin = b.minPrice ∧ newMax = b.maxPrice) := by
    rintro ⟨sameMin, sameMax⟩
    rw [sameMin] at low
    rw [sameMax] at high
    change b.range.lo = _ at low
    change b.range.hi = _ at high
    simp only [Range.covers, low, high, covers, decide_true, Bool.and_self] at outside
    exact Bool.noConfusion outside
  have size : LadderBook.ticks newMin newMax tick = grown.ticks tick.toNat := by
    rw [ticks_toNat newMin newMax _ (by omega), low, high]
  simp only [moved, if_false, fits.tickSize, size]
  by_cases small : grown.ticks tick.toNat ≤ kMaxTicks
  · rw [if_pos small, if_neg (Nat.not_lt.mpr small)]
    have wider := grown_wider (exactWindow window) tick.toNat b.range price.toNat_lt
    have aligned := grown_aligned (exactWindow window) fits.aligned price.toNat
    exact ⟨newMin, newMax, low, high, low ▸ wider.1, high ▸ wider.2, low ▸ aligned, by rw [size]⟩
  · rw [if_neg small, if_pos (Nat.lt_of_not_le small)]

theorem growToInclude_spec (valid : Valid tick window b d) (positive : 0 < tick.toNat)
    (narrow : ∀ p, (window p).toNat < 2 ^ 63)
    (empty : ∀ bid p, (d bid).orders p = 0 → (d bid).shares p = 0)
    (outside : b.range.covers price.toNat = false) :
    let grown := b.range.grown tick.toNat (exactWindow window) price.toNat
    if grown.ticks tick.toNat ≤ kMaxTicks then
      (b.growToInclude price).1 = true ∧ Valid tick window (b.growToInclude price).2 d ∧
        (b.growToInclude price).2.range = grown ∧ (b.growToInclude price).2.orders = b.orders
    else b.growToInclude price = (false, b) := by
  intro grown
  have growth := valid.fits.growth narrow outside
  by_cases small : grown.ticks tick.toNat ≤ kMaxTicks
  · simp only [grown, small, if_true] at growth ⊢
    obtain ⟨newMin, newMax, low, high, lower, upper, aligned, same⟩ := growth
    rw [same]
    refine ⟨rfl, resizeRange_valid valid positive empty newMin newMax lower upper aligned, ?_, rfl⟩
    change Range.mk newMin.toNat newMax.toNat = _
    rw [low, high]
  · simpa only [grown, small, if_false] using growth

theorem growToInclude_covered (b : LadderBook) (price : UInt32)
    (covered : b.range.covers price.toNat = true) : b.growToInclude price = (true, b) := by
  rw [← inRange_iff, inRange, Bool.and_eq_true, decide_eq_true_eq, decide_eq_true_eq] at covered
  simp [growToInclude, UInt32.not_lt.mpr covered.1, UInt32.not_lt.mpr covered.2]

theorem Fits.admit (fits : Fits tick window b) (narrow : ∀ p, (window p).toNat < 2 ^ 63) (price : UInt32) :
    let grown := if b.inRange price then (true, b) else b.growToInclude price
    let passed := (Gate.ladder tick.toNat (exactWindow window)).admits b.range price.toNat
    (grown = (true, b) ∧ passed = (decide (price.toNat % tick.toNat = 0), b.range) ∧
      b.range.covers price.toNat = true) ∨
    (∃ newMin newMax : UInt32,
      grown = (true, b.resizeRange newMin newMax (LadderBook.ticks newMin newMax tick)) ∧
      passed = (decide (price.toNat % tick.toNat = 0), ⟨newMin.toNat, newMax.toNat⟩) ∧
      (Range.mk newMin.toNat newMax.toNat).covers price.toNat = true ∧
      newMin.toNat ≤ b.range.lo ∧ b.range.hi ≤ newMax.toNat ∧ tick.toNat ∣ newMin.toNat) ∨
    (grown = (false, b) ∧ passed = (false, b.range)) := by
  rw [inRange_iff]
  cases covered : b.range.covers price.toNat with
  | true => exact .inl ⟨rfl, by simp [Gate.ladder, covered], rfl⟩
  | false =>
    right
    have growth := fits.growth narrow covered
    have covers := grown_covers (exactWindow window) tick.toNat b.range price.toNat_lt
    simp only [Gate.ladder, covered, Bool.false_eq_true, if_false]
    by_cases small : (b.range.grown tick.toNat (exactWindow window) price.toNat).ticks tick.toNat ≤ kMaxTicks
    · simp only [small, if_true] at growth ⊢
      obtain ⟨newMin, newMax, low, high, lower, upper, aligned, same⟩ := growth
      refine .inl ⟨newMin, newMax, same, ?_, ?_, lower, upper, aligned⟩
      · rw [low, high]
      · simp [Range.covers, low, high, covers]
    · simp only [small, if_false] at growth ⊢
      exact .inr ⟨growth, trivial⟩

theorem admit_spec (valid : Valid tick window b d) (positive : 0 < tick.toNat)
    (narrow : ∀ p, (window p).toNat < 2 ^ 63)
    (empty : ∀ bid p, (d bid).orders p = 0 → (d bid).shares p = 0) (price : UInt32) :
    let grown := if b.inRange price then (true, b) else b.growToInclude price
    let passed := (Gate.ladder tick.toNat (exactWindow window)).admits b.range price.toNat
    Valid tick window grown.2 d ∧ grown.2.range = passed.2 ∧ grown.2.orders = b.orders ∧
      (grown.1 = true → grown.2.range.covers price.toNat = true) ∧
      (passed.1 = true ↔ grown.1 = true ∧ price.toNat % tick.toNat = 0) := by
  intro grown passed
  have admits := valid.fits.admit narrow price
  change (grown = _ ∧ passed = _ ∧ _) ∨ (∃ _ _, grown = _ ∧ passed = _ ∧ _) ∨ (grown = _ ∧ passed = _) at admits
  clear_value grown passed
  obtain ⟨rfl, rfl, covered⟩ | ⟨newMin, newMax, rfl, rfl, covered, lower, upper, aligned⟩ | ⟨rfl, rfl⟩ := admits
  · exact ⟨valid, rfl, rfl, fun _ => covered, by simp⟩
  · exact ⟨resizeRange_valid valid positive empty newMin newMax lower upper aligned, rfl, rfl,
      fun _ => covered, by simp⟩
  · exact ⟨valid, rfl, rfl, by simp, by simp⟩

structure Relevels (b b' : LadderBook) (bid : Bool) (changed : LadderSide) : Prop where
  frame : ∃ bid ask, b' = { b with bid, ask }
  here : b'.side bid = changed
  other : ∀ bid', bid ≠ bid' → b'.side bid' = b.side bid'

theorem levelSub_relevels (b : LadderBook) (s : Side) (price shares : UInt32) (gone : Bool) :
    Relevels b (b.levelSub s price shares gone) (isBuy s)
      ((b.side (isBuy s)).sub (isBuy s) b.numTicks (b.idx price) shares gone) := by
  by_cases buy : s = Side.buy
  all_goals
    simp only [LadderBook.levelSub, isBuy, buy, if_true, if_false, decide_true, decide_false]
    refine ⟨⟨_, _, rfl⟩, rfl, fun bid' differs => ?_⟩
    cases bid' <;> simp [side] at differs ⊢

theorem levelAdd_relevels (b : LadderBook) (s : Side) (price shares : UInt32) :
    Relevels b (b.levelAdd s price shares) (isBuy s)
      ((b.side (isBuy s)).add (isBuy s) (b.idx price) shares) := by
  by_cases buy : s = Side.buy
  all_goals
    simp only [LadderBook.levelAdd, isBuy, buy, if_true, if_false, decide_true, decide_false]
    refine ⟨⟨_, _, rfl⟩, rfl, fun bid' differs => ?_⟩
    cases bid' <;> simp [side] at differs ⊢

theorem Relevels.orders {b' : LadderBook} {bid : Bool} {changed : LadderSide}
    (moved : Relevels b b' bid changed) : b'.orders = b.orders := by
  obtain ⟨_, _, same⟩ := moved.frame
  rw [same]

theorem Relevels.range {b' : LadderBook} {bid : Bool} {changed : LadderSide}
    (moved : Relevels b b' bid changed) : b'.range = b.range := by
  obtain ⟨_, _, same⟩ := moved.frame
  rw [same]
  rfl

theorem Relevels.valid {b' : LadderBook} {bid : Bool} {changed : LadderSide} {change : Depth → Depth}
    (moved : Relevels b b' bid changed) (valid : Valid tick window b d)
    (holds : changed.Holds b.range.lo tick.toNat b.numTicks bid (change (d bid))) :
    Valid tick window b' (onSide d bid change) := by
  obtain ⟨⟨_, _, rfl⟩, here, other⟩ := moved
  have fits := valid.fits
  refine ⟨⟨fits.tickSize, fits.conversion, fits.aligned, fits.ordered, fits.ticks⟩, fun bid' => ?_⟩
  change LadderSide.Holds b.range.lo tick.toNat b.numTicks bid' _ _
  by_cases same : bid = bid'
  · subst same
    rw [here]
    simpa [onSide] using holds
  · rw [other bid' same]
    simpa [onSide, same] using valid.holds bid'

theorem locator_sound (tick : UInt32) (window : UInt32 → UInt64) (positive : 0 < tick.toNat) :
    locator.Sound range (Valid tick window) where
  orders_set _ _ := rfl
  gate_set _ _ := rfl
  valid_set _ _ _ valid := ⟨⟨valid.fits.tickSize, valid.fits.conversion, valid.fits.aligned,
    valid.fits.ordered, valid.fits.ticks⟩, valid.holds⟩
  orders_sub b s price shares gone := (levelSub_relevels b s price shares gone).orders
  gate_sub b s price shares gone := (levelSub_relevels b s price shares gone).range
  shrink b d s price shares valid occupied within := by
    obtain ⟨i, inside, here⟩ := (valid.holds (isBuy s)).onGrid _ occupied
    refine (levelSub_relevels b s price shares false).valid valid ?_
    rw [valid.fits.idx positive here]
    rw [here] at occupied within ⊢
    exact (valid.holds _).shrink positive inside occupied within
  debit b d s price shares valid occupied within counted := by
    obtain ⟨i, inside, here⟩ := (valid.holds (isBuy s)).onGrid _ occupied
    refine (levelSub_relevels b s price shares true).valid valid ?_
    rw [valid.fits.idx positive here]
    rw [here] at occupied within ⊢
    exact (valid.holds _).debit positive inside occupied within counted

theorem levelAdd_valid {orders : Orders} {ref : UInt64} {o : Order}
    (valid : Valid tick window b (depths orders)) (positive : 0 < tick.toNat)
    (fresh : orders.lookup ref = none) (few : size orders + 1 < 2 ^ 32)
    (covered : b.range.covers o.price.toNat = true) (multiple : o.price.toNat % tick.toNat = 0) :
    Valid tick window (b.levelAdd o.side o.price o.shares) (depths (orders.insert ref o)) := by
  have moved : depths (orders.insert ref o) =
      onSide (depths orders) (isBuy o.side) fun e => e.credit o.price.toNat o.shares.toNat :=
    funext fun bid => depth_insert bid fresh o
  rw [moved]
  simp only [Range.covers, Bool.and_eq_true, decide_eq_true_eq] at covered
  obtain ⟨i, inside, here⟩ := valid.fits.onGrid positive covered (Nat.dvd_of_mod_eq_zero multiple)
  have count := ordersAt_le_size (isBuy o.side) orders o.price.toNat
  have sum := sharesAt_le_size (isBuy o.side) orders o.price.toNat
  have levels := levelCount_le_size (isBuy o.side) orders
  have small := o.shares.toNat_lt
  have scaled : size orders * (2 ^ 32 - 1) ≤ 2 ^ 32 * (2 ^ 32 - 1) := Nat.mul_le_mul_right _ (by omega)
  refine (levelAdd_relevels b o.side o.price o.shares).valid valid ?_
  rw [valid.fits.idx positive here]
  rw [here] at count sum ⊢
  refine (valid.holds _).add positive inside ?_ ?_ ?_
  · change ordersAt _ _ _ + 1 < _
    omega
  · change sharesAt _ _ _ + _ < _
    omega
  · change levelCount _ _ + 1 < _
    omega

theorem add_simulates {n : Nat} {s : Naive Range} (positive : 0 < tick.toNat)
    (narrow : ∀ p, (window p).toNat < 2 ^ 63) (few : n + 1 < 2 ^ 32)
    (related : Simulates tick window n b s) (ref : UInt64) (sd : Side) (shares price : UInt32) :
    let gate := Gate.ladder tick.toNat (exactWindow window)
    (b.add ref sd shares price).1 = (s.add gate ref sd shares price).1 ∧
      Simulates tick window (n + 1) (b.add ref sd shares price).2 (s.add gate ref sd shares price).2 := by
  intro gate
  obtain ⟨same, gated, valid, bound⟩ := related
  change b.orders = s.orders at same
  have admits := admit_spec valid positive narrow
    (fun bid p none => sharesAt_unoccupied bid s.orders p none) price
  rw [gated] at admits
  unfold LadderBook.add Naive.add
  revert admits
  generalize (if b.inRange price then (true, b) else b.growToInclude price) = grown
  generalize (Gate.ladder tick.toNat (exactWindow window)).admits s.gate price.toNat = passed
  rintro ⟨kept, moved, orders, covers, admitted⟩
  rw [same] at orders
  change _ = (if passed.1 then _ else _ : Bool × Naive Range).1 ∧
    Simulates tick window (n + 1) _ (if passed.1 then _ else _ : Bool × Naive Range).2
  have refused : Simulates tick window (n + 1) grown.2 { s with gate := passed.2 } :=
    ⟨orders, moved, kept, bound.trans (Nat.le_succ n)⟩
  by_cases grew : grown.1 = true
  · have remainder : (price - grown.2.minPrice) % grown.2.tickSize = 0 ↔ price.toNat % tick.toNat = 0 := by
      have covered := covers grew
      simp only [Range.covers, Bool.and_eq_true, decide_eq_true_eq] at covered
      exact kept.fits.remainder covered.1
    by_cases multiple : price.toNat % tick.toNat = 0
    · have aligned := remainder.mpr multiple
      simp only [admitted.mpr ⟨grew, multiple⟩, grew, aligned, orders, Bool.not_true, Bool.false_eq_true,
        ne_eq, not_true, if_false, if_true]
      cases found : s.orders.lookup ref with
      | some o => exact ⟨rfl, refused⟩
      | none =>
        have grown' := size_insert_fresh (⟨shares, price, sd⟩ : Order) found
        have stored := (locator_sound tick window positive).valid_set grown.2
          (s.orders.insert ref ⟨shares, price, sd⟩) _ kept
        have placed := levelAdd_valid stored positive found (o := ⟨shares, price, sd⟩) (by omega)
          (covers grew) multiple
        refine ⟨rfl, ?_, ?_, ?_, ?_⟩
        · exact (levelAdd_relevels _ sd price shares).orders
        · exact ((levelAdd_relevels _ sd price shares).range).trans moved
        · exact placed
        · change size (s.orders.insert ref _) ≤ n + 1
          omega
    · have off : ¬ (price - grown.2.minPrice) % grown.2.tickSize = 0 := fun h => multiple (remainder.mp h)
      have shut : ¬ passed.1 = true := fun h => multiple (admitted.mp h).2
      simp only [shut, grew, off, Bool.not_true, Bool.false_eq_true, ne_eq, not_false_eq_true,
        if_false, if_true]
      exact ⟨trivial, refused⟩
  · have shut : ¬ passed.1 = true := fun h => grew (admitted.mp h).1
    simp only [shut, grew, Bool.not_false, Bool.false_eq_true, if_true, if_false]
    exact ⟨trivial, refused⟩

theorem call_simulates {n : Nat} {s : Naive Range} (positive : 0 < tick.toNat)
    (narrow : ∀ p, (window p).toNat < 2 ^ 63) (few : n + 1 < 2 ^ 32)
    (related : Simulates tick window n b s) (c : Call) :
    let gate := Gate.ladder tick.toNat (exactWindow window)
    (b.call c).1 = (s.call gate c).1 ∧ Simulates tick window (n + 1) (b.call c).2 (s.call gate c).2 := by
  have sound := locator_sound tick window positive
  cases c with
  | add ref sd shares price => exact add_simulates positive narrow few related ref sd shares price
  | execute ref shares | cancel ref shares =>
    obtain ⟨answer, next⟩ := related.reduce sound ref shares
    exact ⟨answer, next.weaken⟩
  | remove ref =>
    obtain ⟨answer, next⟩ := related.remove sound ref
    exact ⟨answer, next.weaken⟩
  | replace orig next shares price =>
    exact related.replace sound _ LadderBook.add
      (fun b' s' start ref sd q p => add_simulates positive narrow few start ref sd q p)
      orig next shares price

theorem call_bounded (positive : 0 < tick.toNat) (narrow : ∀ p, (window p).toNat < 2 ^ 63) :
    Simulation.Bounded (2 ^ 32 - 1) LadderBook.call
      (Naive.call (Gate.ladder tick.toNat (exactWindow window))) (Simulates tick window) where
  answer _ _ _ c _ related := (call_simulates positive narrow (by omega) related c).1
  next _ _ _ c _ related := (call_simulates positive narrow (by omega) related c).2

theorem best_eq (positive : 0 < tick.toNat) (bid : Bool) {orders : Orders}
    (valid : Valid tick window b (depths orders)) :
    (b.best (b.side bid)).map Quote.exact = bestQuote bid orders := by
  have holds := valid.holds bid
  rw [bestQuote, ← holds.best.unique (bestPrice_isBest bid orders)]
  unfold LadderBook.best
  cases chosen : (b.side bid).bestIdx with
  | none => rfl
  | some i =>
    have inside := holds.inside i chosen
    have price := valid.fits.priceAt positive inside
    have sum : _ = sharesAt bid orders _ := holds.sum i inside
    simpa [Quote.exact, price] using sum

theorem valid_view (positive : 0 < tick.toNat) {orders : Orders} (same : b.orders = orders)
    (valid : Valid tick window b (depths orders)) : b.view = Book.view orders := by
  have bids := best_eq positive true valid
  have asks := best_eq positive false valid
  simp only [view, Book.view, bestBid, bestAsk, openOrders, bidLevels, askLevels, View.mk.injEq]
  exact ⟨bids, asks, by rw [same], (valid.holds true).levels, (valid.holds false).levels⟩

theorem growToInclude_view (positive : 0 < tick.toNat) (narrow : ∀ p, (window p).toNat < 2 ^ 63)
    {orders : Orders} (same : b.orders = orders) (valid : Valid tick window b (depths orders))
    (price : UInt32) : (b.growToInclude price).2.view = b.view := by
  cases covered : b.range.covers price.toNat with
  | true => rw [growToInclude_covered b price covered]
  | false =>
    have grows := growToInclude_spec valid positive narrow
      (fun bid p none => sharesAt_unoccupied bid orders p none) covered
    simp only at grows
    split at grows
    · obtain ⟨-, kept, -, unchanged⟩ := grows
      rw [valid_view positive (unchanged.trans same) kept, valid_view positive same valid]
    · rw [grows]

theorem window_ordered (tick base : UInt32) (narrow : ∀ p, (window p).toNat < 2 ^ 63) :
    (snapToTick (windowLow window base) tick).toNat ≤ (windowHigh window base).toNat := by
  have below := Nat.div_mul_le_self (base.toNat - (window base).toNat) tick.toNat
  have small := base.toNat_lt
  rw [snapToTick_toNat, windowLow_toNat, windowHigh_toNat window base (narrow base)]
  omega

theorem construct_simulates (tick : UInt32) (base : UInt32)
    (narrow : ∀ p, (window p).toNat < 2 ^ 63) :
    ∃ b, ofRange tick (snapToTick (windowLow window base) tick) (windowHigh window base) window = some b ∧
      Simulates tick window 0 b ⟨∅, Range.around tick.toNat (exactWindow window) base.toNat⟩ := by
  have low : (snapToTick (windowLow window base) tick).toNat =
      (Range.around tick.toNat (exactWindow window) base.toNat).lo := by
    rw [snapToTick_toNat, windowLow_toNat, Range.around, exactWindow_toNat]
  have high : (windowHigh window base).toNat =
      (Range.around tick.toNat (exactWindow window) base.toNat).hi := by
    rw [windowHigh_toNat window base (narrow base), Range.around, exactWindow_toNat]
  have ordered := window_ordered tick base narrow
  have checked : checkRange (snapToTick (windowLow window base) tick) (windowHigh window base) =
      some (windowHigh window base) := by
    rw [checkRange, if_neg]
    rw [UInt32.lt_iff_toNat_lt]
    omega
  refine ⟨_, by rw [ofRange, checked, Option.map_some], rfl, ?_, ?_, Nat.le_refl _⟩
  · change Range.mk _ _ = _
    rw [low, high]
  · refine ⟨⟨rfl, rfl, ?_, ordered, ticks_toNat _ _ _ ordered⟩, fun bid => ?_⟩
    · change tick.toNat ∣ (snapToTick (windowLow window base) tick).toNat
      rw [snapToTick_toNat]
      exact Nat.dvd_mul_left _ _
    · have empty : depths (∅ : Orders) bid = ⟨fun _ => 0, fun _ => 0, 0⟩ := rfl
      rw [empty]
      cases bid
      all_goals
        refine ⟨by simp [side], fun i _ => ?_, fun i _ => ?_, rfl, by simp, fun _ => rfl, by simp [side]⟩
        · simp [side, LadderSide.level, LadderSide.levelAt_replicate]
        · simp [side, LadderSide.level, LadderSide.levelAt_replicate]

end Ladder

theorem tick_pos (tickSize : UInt32) : 0 < (if tickSize = 0 then 1 else tickSize).toNat := by
  by_cases zero : tickSize = 0
  · simp [zero]
  · rw [if_neg zero, Nat.pos_iff_ne_zero]
    intro none
    exact zero (UInt32.toNat_inj.mp none)

/-- The flat-array book is the naive order map behind the ladder's admission
gate, whatever the price-to-window conversion is; growing the ladder shows in
no reading. -/
theorem refines_gated_naive (base tickSize : UInt32) (window : UInt32 → UInt64)
    (narrow : ∀ p, (window p).toNat < 2 ^ 63) (calls : List Call) (short : calls.length < 2 ^ 32) :
    let tick := if tickSize = 0 then 1 else tickSize.toNat
    let gate := Gate.ladder tick (exactWindow window)
    let start : Naive Range := ⟨∅, Range.around tick (exactWindow window) base.toNat⟩
    ∃ b, construct base tickSize window = some b ∧
      Simulation.trace call view b calls =
        Simulation.trace (Naive.call gate) (fun s => Book.view s.orders) start calls ∧
      ∀ price, ((Simulation.run call b calls).growToInclude price).2.view =
        (Simulation.run call b calls).view := by
  intro tick gate start
  have positive := tick_pos tickSize
  have toNat : tick = (if tickSize = 0 then 1 else tickSize).toNat := by
    simp only [tick]
    split <;> rfl
  obtain ⟨b, built, initial⟩ := construct_simulates (if tickSize = 0 then 1 else tickSize) base narrow
  have sound := call_bounded positive narrow
  refine ⟨b, built, ?_, fun price => ?_⟩
  · simp only [gate, start, toNat]
    exact sound.trace_eq (fun n b s _ related => valid_view positive related.orders related.valid)
      calls 0 (by omega) _ _ initial
  · obtain ⟨same, -, valid, -⟩ := sound.run_related calls 0 (by omega) _ _ initial
    generalize Simulation.run call b calls = b at same valid
    generalize Simulation.run (Naive.call _) _ calls = s at same valid
    exact growToInclude_view positive narrow same valid price

theorem refines_gated_naive_tick_zero :
    let calls := [Call.add 1 Side.buy 100 10, .add 2 Side.sell 7 90, .execute 1 250, .replace 2 3 4 8]
    let window : UInt32 → UInt64 := fun price => price.toUInt64 / 2
    let gate := Gate.ladder 1 (exactWindow window)
    ∃ b, construct 20 0 window = some b ∧
      Simulation.trace call view b calls =
        Simulation.trace (Naive.call gate) (fun s => Book.view s.orders)
          ⟨∅, Range.around 1 (exactWindow window) 20⟩ calls := by
  obtain ⟨b, built, same, -⟩ := refines_gated_naive 20 0 (fun price => price.toUInt64 / 2) (by
    intro p
    have small := p.toNat_lt
    simp only [UInt64.toNat_div, UInt32.toNat_toUInt64]
    exact lt_of_le_of_lt (Nat.div_le_self _ _) (by omega))
    [Call.add 1 Side.buy 100 10, .add 2 Side.sell 7 90, .execute 1 250, .replace 2 3 4 8] (by decide)
  exact ⟨b, built, same⟩

end LadderBook

end ItchLob.Book
