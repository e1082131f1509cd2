import ItchLob.Book.LadderSheet

set_option autoImplicit false

namespace ItchLob.Book

open Itch FiniteMap

section Alike

variable {α : Type} (g : Gate α)

def Gate.answers : α → List UInt32 → List Bool
  | _, [] => []
  | r, price :: rest =>
    (g.admits r price.toNat).1 :: Gate.answers (g.admits r price.toNat).2 rest

def Gate.Alike (r r' : α) : Prop := ∀ prices, g.answers r prices = g.answers r' prices

variable {g} {r r' : α}

theorem Gate.Alike.now (alike : g.Alike r r') (price : UInt32) :
    (g.admits r price.toNat).1 = (g.admits r' price.toNat).1 :=
  (List.cons.inj (alike [price])).1

theorem Gate.Alike.next (alike : g.Alike r r') (price : UInt32) :
    g.Alike (g.admits r price.toNat).2 (g.admits r' price.toNat).2 := fun rest =>
  (List.cons.inj (alike (price :: rest))).2

end Alike

namespace Ledger

variable {tick : Nat} {admitted : UInt32 → Bool} {l : Ledger} {ref : UInt64} {side : Side}
  {shares price : UInt32}

theorem add_refused (refused : (l.add tick admitted ref side shares price).1 = false) :
    (l.add tick admitted ref side shares price).2 = l := by
  unfold Ledger.add at refused ⊢
  cases passed : admitted price with
  | false => rfl
  | true =>
    cases found : l.orders.lookup ref with
    | some o => rfl
    | none => simp [passed, found] at refused

theorem add_free (free : l.orders.lookup ref = none) :
    (l.add tick admitted ref side shares price).1 = admitted price := by
  unfold Ledger.add
  rw [free]
  cases admitted price <;> rfl

theorem remove_free (tick : Nat) (l : Ledger) (ref : UInt64) :
    ((locator tick).remove l ref).2.orders.lookup ref = none := by
  have mirror : (locator tick).orders l = l.orders := rfl
  simp only [Locator.remove, mirror]
  cases found : l.orders.lookup ref with
  | none => exact found
  | some o => exact AList.lookup_erase ref l.orders

end Ledger

namespace LadderBook

section Later

variable {tick : UInt32} {window : UInt32 → UInt64} {b b' : LadderBook} {l l' : Ledger} {r r' : Range}

theorem alike_trace (positive : 0 < tick.toNat) (narrow : ∀ p, (window p).toNat < 2 ^ 63)
    (shows : Shows tick window b l r) (shows' : Shows tick window b' l r')
    (alike : (gate tick window).Alike r r') (later : List Call) :
    Simulation.trace call view b later = Simulation.trace call view b' later := by
  induction later generalizing b b' l r r' with
  | nil => rfl
  | cons c rest ih =>
    have admits : admitted tick window r = admitted tick window r' := funext alike.now
    obtain ⟨answer, next⟩ := shows.call positive narrow c
    obtain ⟨answer', next'⟩ := shows'.call positive narrow c
    rw [← admits] at answer' next'
    have onward : (gate tick window).Alike (movedBy tick window r (l.asks c))
        (movedBy tick window r' (l.asks c)) := by
      cases l.asks c with
      | none => exact alike
      | some price => exact alike.next price
    rw [Simulation.trace, Simulation.trace, answer, answer', next.view, next'.view, ih next next' onward]

-- Each price is put to the window by an order that is then taken out again.
def probe (prices : List UInt32) : List Call := prices.flatMap fun price => [.add 0 Side.buy 1 price, .remove 0]

theorem probe_answers (positive : 0 < tick.toNat) (narrow : ∀ p, (window p).toNat < 2 ^ 63)
    (shows : Shows tick window b l r) (shows' : Shows tick window b' l' r') (free : l.orders.lookup 0 = none)
    (free' : l'.orders.lookup 0 = none) (prices : List UInt32)
    (same : Simulation.trace call view b (probe prices) = Simulation.trace call view b' (probe prices)) :
    (gate tick window).answers r prices = (gate tick window).answers r' prices := by
  induction prices generalizing b b' l l' r r' with
  | nil => rfl
  | cons price rest ih =>
    obtain ⟨answer, next⟩ := shows.add positive narrow 0 Side.buy 1 price
    obtain ⟨answer', next'⟩ := shows'.add positive narrow 0 Side.buy 1 price
    have cleared := (next.remove positive 0).2
    have cleared' := (next'.remove positive 0).2
    simp only [probe, List.flatMap_cons, List.cons_append, List.nil_append, Simulation.trace,
      List.cons.injEq, Prod.mk.injEq] at same
    obtain ⟨⟨first, -⟩, -, rest'⟩ := same
    have tail := ih cleared cleared' (Ledger.remove_free ..) (Ledger.remove_free ..) rest'
    change (b.add 0 Side.buy 1 price).1 = (b'.add 0 Side.buy 1 price).1 at first
    rw [answer, answer', Ledger.add_free free, Ledger.add_free free'] at first
    exact List.cons_eq_cons.mpr ⟨first, tail⟩

theorem refused_shows (positive : 0 < tick.toNat) (narrow : ∀ p, (window p).toNat < 2 ^ 63)
    (shows : Shows tick window b l r) {ref : UInt64} {side : Side} {shares price : UInt32}
    (refused : (b.add ref side shares price).1 = false) :
    Shows tick window (b.add ref side shares price).2 l (moved tick window r price) := by
  obtain ⟨answer, next⟩ := shows.add positive narrow ref side shares price
  rw [answer] at refused
  rwa [Ledger.add_refused refused] at next

/-- A refused add leaves the ledger alone, so what it can leave behind is a moved
range, and it shows if and only if some later sequence of prices does. -/
theorem refused_traceless_iff (positive : 0 < tick.toNat) (narrow : ∀ p, (window p).toNat < 2 ^ 63)
    (shows : Shows tick window b l r) {ref : UInt64} {side : Side} {shares price : UInt32}
    (refused : (b.add ref side shares price).1 = false) :
    (∀ later, Simulation.trace call view (b.add ref side shares price).2 later =
        Simulation.trace call view b later) ↔
      (gate tick window).Alike (moved tick window r price) r := by
  have next := refused_shows positive narrow shows refused
  constructor
  · intro same prices
    have probed := same (.remove 0 :: probe prices)
    simp only [Simulation.trace, List.cons.injEq] at probed
    exact probe_answers positive narrow (next.remove positive 0).2 (shows.remove positive 0).2
      (Ledger.remove_free ..) (Ledger.remove_free ..) prices probed.2
  · intro alike later
    exact alike_trace positive narrow next shows alike later

theorem moved_kept {price : UInt32}
    (kept : r.covers price.toNat = true ∨
      kMaxTicks < (r.grown tick.toNat (exactWindow window) price.toNat).ticks tick.toNat) :
    moved tick window r price = r := by
  rcases kept with covered | past
  · simp [moved, gate, Gate.ladder, covered]
  · have large : ¬(r.grown tick.toNat (exactWindow window) price.toNat).ticks tick.toNat ≤ kMaxTicks :=
      Nat.not_le.mpr past
    by_cases covered : r.covers price.toNat <;> simp [moved, gate, Gate.ladder, covered, large]

theorem moved_grown {price : UInt32} (outside : r.covers price.toNat = false)
    (small : (r.grown tick.toNat (exactWindow window) price.toNat).ticks tick.toNat ≤ kMaxTicks) :
    moved tick window r price = r.grown tick.toNat (exactWindow window) price.toNat := by
  simp [moved, gate, Gate.ladder, outside, small]

-- Where all the prices there are fit under kMaxTicks, growth is never refused.
theorem roomy_admits (positive : 0 < tick.toNat) (roomy : 2 ^ 32 ≤ kMaxTicks * tick.toNat)
    (narrow : r.hi < 2 ^ 32) (price : UInt32) :
    admitted tick window r price = decide (price.toNat % tick.toNat = 0) ∧
      (moved tick window r price).hi < 2 ^ 32 := by
  have top : (r.grown tick.toNat (exactWindow window) price.toNat).hi < 2 ^ 32 := by
    simp only [Range.grown, Range.around]
    split
    · exact Nat.lt_of_le_of_lt (Nat.min_le_right _ _) (by decide)
    · exact narrow
  have small : (r.grown tick.toNat (exactWindow window) price.toNat).ticks tick.toNat ≤ kMaxTicks := by
    rw [Range.ticks, Nat.succ_le_iff, Nat.div_lt_iff_lt_mul positive]
    omega
  cases covered : r.covers price.toNat with
  | true => simpa [admitted, moved, gate, Gate.ladder, covered] using narrow
  | false => simpa [admitted, moved, gate, Gate.ladder, covered, small] using top

theorem roomy_alike (positive : 0 < tick.toNat) (roomy : 2 ^ 32 ≤ kMaxTicks * tick.toNat)
    (narrow : r.hi < 2 ^ 32) (narrow' : r'.hi < 2 ^ 32) : (gate tick window).Alike r r' := by
  intro prices
  induction prices generalizing r r' with
  | nil => rfl
  | cons price rest ih =>
    obtain ⟨answer, within⟩ := roomy_admits positive roomy narrow price
    obtain ⟨answer', within'⟩ := roomy_admits positive roomy narrow' price
    exact List.cons_eq_cons.mpr ⟨answer.trans answer'.symm, ih within within'⟩

end Later

/-- In every book a run can reach, a refused add changes no reading. It goes unnoticed by every
later sequence of calls if it leaves the price range as it is (the price is inside, or growth is
refused as well) or no growth is ever refused, and it shows if it widens the range and some price
is admitted by only one of the two ranges. -/
theorem rejected_add_traceless (base tickSize : UInt32) (window : UInt32 → UInt64)
    (narrow : ∀ p, (window p).toNat < 2 ^ 63) (calls : List Call) (start b : LadderBook)
    (built : construct base tickSize window = some start) (reached : Simulation.run call start calls = b)
    (ref : UInt64) (side : Side) (shares price : UInt32)
    (rejected : (b.add ref side shares price).1 = false) :
    let tick := if tickSize = 0 then 1 else tickSize
    let grown := b.range.grown tick.toNat (exactWindow window) price.toNat
    let kept := b.range.covers price.toNat = true ∨ kMaxTicks < grown.ticks tick.toNat
    (b.add ref side shares price).2.view = b.view ∧
    (kept ∨ 2 ^ 32 ≤ kMaxTicks * tick.toNat →
      ∀ later, Simulation.trace call view (b.add ref side shares price).2 later =
        Simulation.trace call view b later) ∧
    (¬kept ∧ (∃ q, admitted tick window grown q ≠ admitted tick window b.range q) →
      ∃ later, Simulation.trace call view (b.add ref side shares price).2 later ≠
        Simulation.trace call view b later) := by
  intro tick grown kept
  have positive : 0 < tick.toNat := tick_pos tickSize
  obtain ⟨first, l, made, -, initial⟩ := construct_shows tick base narrow
  have same : start = first := Option.some.inj (built.symm.trans made)
  subst same
  obtain ⟨l', r, shows⟩ := shows_run positive narrow initial calls
  rw [reached] at shows
  have next := refused_shows positive narrow shows rejected
  have traceless := refused_traceless_iff positive narrow shows rejected
  rw [← shows.range] at traceless next
  refine ⟨by rw [shows.view, next.view], fun condition => traceless.mpr ?_, fun ⟨widened, q, differ⟩ => ?_⟩
  · rcases condition with kept | roomy
    · rw [moved_kept kept]
      exact fun prices => rfl
    · have within : b.range.hi < 2 ^ 32 := b.maxPrice.toNat_lt
      exact roomy_alike positive roomy (roomy_admits positive roomy within price).2 within
  · have outside : b.range.covers price.toNat = false := Bool.eq_false_iff.mpr fun covered => widened (.inl covered)
    have small : grown.ticks tick.toNat ≤ kMaxTicks := Nat.le_of_not_lt fun past => widened (.inr past)
    rw [moved_grown outside small] at traceless
    by_contra unseen
    push Not at unseen
    exact differ ((traceless.mp unseen).now q)

-- A duplicate inside the range.
theorem rejected_add_traceless_duplicate :
    ∃ start b, construct 20 1 thirty = some start ∧
      Simulation.run call start [.add 1 Side.buy 100 18] = b ∧ (b.add 1 Side.buy 5 19).1 = false ∧
      ∀ later, Simulation.trace call view (b.add 1 Side.buy 5 19).2 later =
        Simulation.trace call view b later := by
  refine ⟨_, _, rfl, rfl, by decide, ?_⟩
  exact (rejected_add_traceless 20 1 thirty thirty_narrow [.add 1 Side.buy 100 18] _ _ rfl rfl 1 Side.buy 5 19
    (by decide)).2.1 (.inl (.inl (by decide)))

-- In the production configuration an add off the grid at 61540.005 dollars is refused but stretches
-- the range to 80002.0065 dollars, and one cent no longer fits under kMaxTicks.
theorem rejected_add_leaves_trace :
    ∃ b, construct 500000 100 thirty = some b ∧ (b.add 1 Side.buy 100 615400050).1 = false ∧
      Simulation.trace call view (b.add 1 Side.buy 100 615400050).2 [.add 2 Side.buy 100 100] ≠
        Simulation.trace call view b [.add 2 Side.buy 100 100] := by
  obtain ⟨b, l, made, fresh, shows⟩ := construct_shows 100 500000 thirty_narrow
  have free : l.orders.lookup 1 = none ∧ l.orders.lookup 2 = none := by
    rw [fresh]
    exact ⟨rfl, rfl⟩
  have shut : admitted 100 thirty (Range.around 100 (exactWindow thirty) 500000) 615400050 = false := by decide
  have refused : (b.add 1 Side.buy 100 615400050).1 = false :=
    ((shows.add (by decide) thirty_narrow 1 Side.buy 100 615400050).1.trans (Ledger.add_free free.1)).trans shut
  have next := refused_shows (by decide) thirty_narrow shows refused
  refine ⟨b, made, refused, fun same => ?_⟩
  have first : ((b.add 1 Side.buy 100 615400050).2.call (.add 2 Side.buy 100 100)).1 =
      (b.call (.add 2 Side.buy 100 100)).1 := (Prod.mk.inj (List.cons.inj same).1).1
  have after := (next.add (by decide) thirty_narrow 2 Side.buy 100 100).1.trans (Ledger.add_free free.2)
  have before := (shows.add (by decide) thirty_narrow 2 Side.buy 100 100).1.trans (Ledger.add_free free.2)
  have differ := after.symm.trans (first.trans before)
  revert differ
  decide

end LadderBook

end ItchLob.Book
