import ItchLob.Book.RejectedAdd
import ItchLob.Pipeline.LadderSafety

set_option autoImplicit false

namespace ItchLob.Pipeline

open Itch Book BookBuilder LadderTraits

def production : BookType LadderBook := ladderBook (.within LadderBook.thirty thirty_tight)

def ladderFor (seen : List Event) (locate : UInt16) (priceHint : UInt32) : LadderBook :=
  ((build production seen).books.find locate).getD (production.make priceHint)

/-- The price of a real order: on the tick grid, positive and at most kMaxSanePrice. -/
def Sane (price : UInt32) : Prop :=
  price.toNat % kTickSize.toNat = 0 ∧ 1 ≤ price.toNat ∧ price ≤ kMaxSanePrice

instance (price : UInt32) : Decidable (Sane price) := inferInstanceAs (Decidable (_ ∧ _ ∧ _))

def priceAsked (b : LadderBook) : Call → Option UInt32
  | .add _ _ _ price => some price
  | .replace orig _ _ price => if (b.orders.lookup orig).isSome then some price else none
  | _ => none

def stretched (r : Range) (price : UInt32) : Range :=
  r.grown kTickSize.toNat (LadderBook.exactWindow LadderBook.thirty) price.toNat

def ticks (r : Range) : Nat := r.ticks kTickSize.toNat

/-- The range starts at the lowest sane price or below, or ends early enough to
be grown down to it. -/
def Ample (r : Range) : Prop := r.lo ≤ kTickSize.toNat ∨ r.hi < LadderBook.kMaxTicks * kTickSize.toNat

/-- Growing up to this price is within the ceiling, but growing down to the
lowest sane price no longer is. -/
def Overstretches (r : Range) (price : UInt32) : Prop :=
  kTickSize.toNat < r.lo ∧ r.hi < price.toNat ∧
    LadderBook.kMaxTicks * kTickSize.toNat ≤ (stretched r price).hi ∧ ticks (stretched r price) ≤ LadderBook.kMaxTicks

section Ranges

variable {r : Range} {price : UInt32}

def movedTo (r : Range) (price : UInt32) : Range := LadderBook.moved kTickSize LadderBook.thirty r price

theorem movedTo_eq (r : Range) (price : UInt32) :
    movedTo r price =
      if r.covers price.toNat then r
      else if ticks (stretched r price) ≤ LadderBook.kMaxTicks then stretched r price else r := by
  simp only [movedTo, LadderBook.moved, LadderBook.gate, Gate.ladder, stretched, ticks]
  split
  · rfl
  · exact apply_ite Prod.snd _ _ _

theorem admitted_iff (aligned : price.toNat % kTickSize.toNat = 0) :
    LadderBook.admitted kTickSize LadderBook.thirty r price = true ↔
      r.covers price.toNat = true ∨ ticks (stretched r price) ≤ LadderBook.kMaxTicks := by
  simp only [LadderBook.admitted, LadderBook.gate, Gate.ladder, stretched, ticks]
  split
  next covered => simp [covered, aligned]
  next outside =>
    split
    next fits => simp [fits, aligned]
    next past => simp [outside, past]

theorem stretched_up (above : r.hi < price.toNat) :
    (stretched r price).hi = min (price.toNat + price.toNat * 3 / 10) (2 ^ 32 - 1) := by
  rw [stretched, Range.grown, if_pos above, Range.around, LadderBook.exactWindow_toNat, LadderBook.thirty_toNat]

theorem stretched_hi (below : price.toNat ≤ r.hi) : (stretched r price).hi = r.hi := by
  rw [stretched, Range.grown, if_neg (Nat.not_lt.mpr below)]

theorem stretched_lo (above : r.lo ≤ price.toNat) : (stretched r price).lo = r.lo := by
  rw [stretched, Range.grown, if_neg (Nat.not_lt.mpr above)]

theorem low_price_fits (low : price.toNat ≤ 615384615) : ¬ Overstretches r price := by
  rintro ⟨-, above, past, -⟩
  rw [stretched_up above] at past
  have span : LadderBook.kMaxTicks * kTickSize.toNat = 800000000 := rfl
  omega

theorem Ample.moved (ample : Ample r) (stays : ¬ Overstretches r price) : Ample (movedTo r price) := by
  rw [movedTo_eq]
  split
  · exact ample
  · split
    next fits =>
      have wider := LadderBook.grown_wider (LadderBook.exactWindow LadderBook.thirty) kTickSize.toNat r price.toNat_lt
      rcases ample with low | early
      · exact .inl (wider.1.trans low)
      · by_cases above : r.hi < price.toNat
        · by_cases bottom : r.lo ≤ kTickSize.toNat
          · exact .inl (wider.1.trans bottom)
          · refine .inr (Nat.lt_of_not_le fun past => stays ⟨?_, above, past, fits⟩)
            omega
        · right
          rw [stretched_hi (by omega)]
          exact early
    next => exact ample

theorem Ample.admits (ample : Ample r) (sane : Sane price) :
    LadderBook.admitted kTickSize LadderBook.thirty r price = true := by
  obtain ⟨aligned, positive, most⟩ := sane
  have tick : kTickSize.toNat = 100 := rfl
  have ceiling : LadderBook.kMaxTicks = 8000000 := rfl
  have highest : price.toNat ≤ 100000000 := UInt32.le_iff_toNat_le.mp most
  rw [admitted_iff aligned, ticks, Range.ticks]
  simp only [Range.covers, Bool.and_eq_true, decide_eq_true_eq]
  simp only [Ample, tick, ceiling] at ample aligned ⊢
  by_cases above : r.hi < price.toNat
  · right
    rw [stretched_up above]
    omega
  · rw [stretched_hi (by omega)]
    omega

theorem Ample.around (base : UInt32) (sane : base.toNat ≤ kMaxSanePrice.toNat) :
    Ample (Range.around kTickSize.toNat (LadderBook.exactWindow LadderBook.thirty) base.toNat) := by
  have most : kMaxSanePrice.toNat = 100000000 := rfl
  have span : LadderBook.kMaxTicks * kTickSize.toNat = 800000000 := rfl
  right
  simp only [Range.around, LadderBook.exactWindow_toNat, LadderBook.thirty_toNat, span]
  omega

theorem Overstretches.moved (stretches : Overstretches r price) : movedTo r price = stretched r price := by
  obtain ⟨-, above, -, fits⟩ := stretches
  have outside : ¬ r.covers price.toNat = true := by
    simp only [Range.covers, Bool.and_eq_true, decide_eq_true_eq]
    omega
  rw [movedTo_eq, if_neg outside, if_pos fits]

theorem Overstretches.refuses (stretches : Overstretches r price) (ordered : r.lo ≤ r.hi) :
    ¬ LadderBook.admitted kTickSize LadderBook.thirty (movedTo r price) kTickSize = true := by
  have tick : kTickSize.toNat = 100 := rfl
  have ceiling : LadderBook.kMaxTicks = 8000000 := rfl
  have span : LadderBook.kMaxTicks * kTickSize.toNat = 800000000 := rfl
  have bottomed : (Range.around kTickSize.toNat (LadderBook.exactWindow LadderBook.thirty) kTickSize.toNat).lo = 0 := by
    decide
  rw [stretches.moved, admitted_iff (by decide)]
  obtain ⟨bottom, above, past, -⟩ := stretches
  have low : (stretched r price).lo = r.lo := stretched_lo (by omega)
  have top : (stretched (stretched r price) kTickSize).hi = (stretched r price).hi := stretched_hi (by omega)
  have floor : (stretched (stretched r price) kTickSize).lo = 0 := by
    rw [stretched, Range.grown, if_pos (by omega)]
    exact bottomed
  rw [ticks, Range.ticks, top, floor]
  simp only [Range.covers, low, tick, Bool.and_eq_true, decide_eq_true_eq]
  omega

end Ranges

section Reached

def Ranged (b : LadderBook) : Prop :=
  ∃ l, LadderBook.Shows kTickSize LadderBook.thirty b l b.range

theorem ranged_fresh (priceHint : UInt32) :
    Ranged (production.make priceHint) ∧ Ample (production.make priceHint).range := by
  obtain ⟨b, l, built, -, shows⟩ := LadderBook.construct_shows kTickSize (base priceHint) LadderBook.thirty_narrow
  have made : production.make priceHint = b := Option.get_of_eq_some _ built
  have range := shows.range
  rw [← range] at shows
  rw [made, range]
  exact ⟨⟨l, shows⟩, Ample.around _ (base_bounds priceHint)⟩

variable {b : LadderBook}

theorem Ranged.call (ranged : Ranged b) (c : Call) :
    Ranged (b.call c).2 ∧ (b.call c).2.range = ((priceAsked b c).map (movedTo b.range)).getD b.range := by
  obtain ⟨l, shows⟩ := ranged
  have next := (shows.call kTickSize_pos LadderBook.thirty_narrow c).2
  have range := next.range
  have asked : l.asks c = priceAsked b c := by
    cases c with
    | replace orig next shares price => rw [Ledger.asks, priceAsked, shows.orders]
    | _ => rfl
  rw [← range] at next
  refine ⟨⟨_, next⟩, ?_⟩
  rw [range, asked]
  cases priceAsked b c <;> rfl

theorem Ranged.answers (ranged : Ranged b) {ref : UInt64} (free : b.orders.lookup ref = none) (side : Side)
    (shares price : UInt32) :
    (b.add ref side shares price).1 = LadderBook.admitted kTickSize LadderBook.thirty b.range price := by
  obtain ⟨l, shows⟩ := ranged
  rw [(shows.add kTickSize_pos LadderBook.thirty_narrow ref side shares price).1]
  exact Ledger.add_free (shows.orders ▸ free)

theorem Ranged.ordered (ranged : Ranged b) : b.range.lo ≤ b.range.hi := by
  obtain ⟨l, shows⟩ := ranged
  exact shows.fits.ordered

theorem overstretched_refuses (ranged : Ranged b) {c : Call} {price : UInt32} (asked : priceAsked b c = some price)
    (stretches : Overstretches b.range price) {ref : UInt64} (free : (b.call c).2.orders.lookup ref = none)
    (side : Side) (shares : UInt32) : ((b.call c).2.add ref side shares kTickSize).1 = false := by
  obtain ⟨next, range⟩ := ranged.call c
  rw [asked, Option.map_some, Option.getD_some] at range
  rw [next.answers free, range]
  exact eq_false_of_ne_true (stretches.refuses ranged.ordered)

end Reached

section Replay

variable {seen : List Event} {locate : UInt16}

theorem ladderFor_append (seen : List Event) (locate : UInt16) (e : Event) (priceHint : UInt32) :
    (∃ r, request e = some r ∧ r.locate = locate ∧
      ladderFor (seen ++ [e]) locate priceHint = ((ladderFor seen locate r.priceHint).call r.call).2) ∨
    ladderFor (seen ++ [e]) locate priceHint = ladderFor seen locate priceHint := by
  unfold ladderFor
  rw [build_append]
  by_cases here : addressed locate e
  · obtain ⟨r, asks, rfl⟩ := Option.map_eq_some_iff.mp here
    refine .inl ⟨r, asks, rfl, ?_⟩
    rw [request_find _ asks, if_pos rfl, Option.getD_some, production, ladderBook_call]
  · rw [unaddressed_find _ here]
    exact .inr rfl

theorem ladderFor_invariant (holds : LadderBook → Prop) (fresh : ∀ priceHint, holds (production.make priceHint))
    (keeps : ∀ before e after r, seen = before ++ e :: after → request e = some r → r.locate = locate →
      holds (ladderFor before locate r.priceHint) → holds ((ladderFor before locate r.priceHint).call r.call).2)
    (priceHint : UInt32) : holds (ladderFor seen locate priceHint) := by
  induction seen using List.reverseRecOn generalizing priceHint with
  | nil => exact fresh priceHint
  | append_singleton seen e ih =>
    have earlier := ih fun before e' after r split => keeps before e' (after ++ [e]) r (by simp [split])
    rcases ladderFor_append seen locate e priceHint with ⟨r, asks, here, called⟩ | same
    · rw [called]
      exact keeps seen e [] r rfl asks here (earlier r.priceHint)
    · rw [same]
      exact earlier priceHint

theorem ladderFor_ranged (seen : List Event) (locate : UInt16) (priceHint : UInt32) :
    Ranged (ladderFor seen locate priceHint) :=
  ladderFor_invariant Ranged (fun hint => (ranged_fresh hint).1)
    (fun _ _ _ r _ _ _ ranged => (ranged.call r.call).1) priceHint

theorem ladderFor_ample
    (stays : ∀ before e after r price, seen = before ++ e :: after → request e = some r → r.locate = locate →
      priceAsked (ladderFor before locate r.priceHint) r.call = some price →
      ¬ Overstretches (ladderFor before locate r.priceHint).range price) (priceHint : UInt32) :
    Ample (ladderFor seen locate priceHint).range := by
  refine ladderFor_invariant (fun b => Ample b.range) (fun hint => (ranged_fresh hint).2) ?_ priceHint
  intro before e after r split asks here ample
  have ranged := ladderFor_ranged before locate r.priceHint
  rw [(ranged.call r.call).2]
  cases asked : priceAsked (ladderFor before locate r.priceHint) r.call with
  | none => exact ample
  | some price => exact ample.moved (stays before e after r price split asks here asked)

/-- In every ladder that the replay reaches, a sane add for a free reference is
accepted exactly when its price is in range or the range grown to it is within
the ceiling; and always when no earlier price overstretched that ladder. One that
is overstretched refuses one cent from then on. -/
theorem sane_adds_accepted (seen : List Event) (locate : UInt16) (priceHint : UInt32) :
    let b := ladderFor seen locate priceHint
    (∀ ref side shares price, b.orders.lookup ref = none → Sane price →
      ((b.add ref side shares price).1 = true ↔
        b.range.covers price.toNat = true ∨ ticks (stretched b.range price) ≤ LadderBook.kMaxTicks)) ∧
    ((∀ before e after r price, seen = before ++ e :: after → request e = some r → r.locate = locate →
        priceAsked (ladderFor before locate r.priceHint) r.call = some price →
        ¬ Overstretches (ladderFor before locate r.priceHint).range price) →
      ∀ ref side shares price, b.orders.lookup ref = none → Sane price →
        (b.add ref side shares price).1 = true) ∧
    (∀ c price, priceAsked b c = some price → Overstretches b.range price →
      ∀ ref side shares, (b.call c).2.orders.lookup ref = none →
        ((b.call c).2.add ref side shares kTickSize).1 = false) := by
  intro b
  have ranged : Ranged b := ladderFor_ranged seen locate priceHint
  refine ⟨fun ref side shares price free sane => ?_, fun stays ref side shares price free sane => ?_,
    fun c price asked stretches ref side shares free => overstretched_refuses ranged asked stretches free side shares⟩
  · rw [ranged.answers free]
    exact admitted_iff sane.1
  · rw [ranged.answers free]
    exact (ladderFor_ample stays priceHint).admits sane

def order (ref : UInt64) (price : UInt32) : Event :=
  .add ⟨⟨1, 0⟩, ref, Side.buy, 100, List.replicate 9 32, price⟩

theorem sane_adds_accepted_cent :
    ((ladderFor [order 1 500000] 1 0).add 2 Side.buy 100 100).1 = true := by
  refine (sane_adds_accepted [order 1 500000] 1 0).2.1 ?_ 2 Side.buy 100 100 (by decide +kernel) (by decide)
  intro before e after r price split asks _ asked
  have only : e = order 1 500000 := by
    have inside : e ∈ before ++ e :: after := by simp
    rw [← split] at inside
    exact List.mem_singleton.mp inside
  subst only
  obtain rfl : _ = r := Option.some.inj asks
  obtain rfl : _ = price := Option.some.inj asked
  exact low_price_fits (by decide)

-- Two orders on the grid at 50 and 61540 dollars are both accepted, and the
-- second grows the ladder to 80002 dollars: an order at one cent is dropped.
theorem sane_add_dropped :
    let seen := [order 1 500000, order 2 615400000]
    (build production seen).unknownRefs = 0 ∧ (ladderFor seen 1 0).orders.lookup 3 = none ∧ Sane 100 ∧
      ((ladderFor seen 1 0).add 3 Side.buy 100 100).1 = false := by
  decide +kernel

end Replay

end ItchLob.Pipeline
