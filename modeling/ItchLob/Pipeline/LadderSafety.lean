import ItchLob.Book.LadderChecked
import ItchLob.Pipeline.Differential

set_option autoImplicit false

namespace ItchLob.Pipeline

open Itch Book BookBuilder

namespace Conversion

-- The production window is a fraction of the price, so it never exceeds it.
def within (window : UInt32 → UInt64) (tight : ∀ price, (window price).toNat ≤ price.toNat) : Conversion :=
  ⟨window, fun price => by
    have bound := tight price
    have small := price.toNat_lt
    omega⟩

end Conversion

section Reached

variable (window : UInt32 → UInt64)

def Bounded (n : Nat) (b : LadderBook) : Prop :=
  ∃ s, LadderBook.Simulates LadderTraits.kTickSize window n b s ∧
    s.gate.ticks LadderTraits.kTickSize.toNat ≤ LadderBook.kMaxTicks

variable {window} {n : Nat} {b : LadderBook}

theorem Bounded.weaken (bounded : Bounded window n b) : Bounded window (n + 1) b := by
  obtain ⟨s, related, small⟩ := bounded
  exact ⟨s, related.weaken, small⟩

theorem Bounded.call (bounded : Bounded window n b) (narrow : ∀ p, (window p).toNat < 2 ^ 63)
    (few : n + 1 < 2 ^ 32) (c : Call) : Bounded window (n + 1) (b.call c).2 := by
  obtain ⟨s, related, small⟩ := bounded
  exact ⟨_, (LadderBook.call_simulates kTickSize_pos narrow few related c).2, Checked.call_ceiling small c⟩

theorem Bounded.safe (bounded : Bounded window n b) : Checked.Safe b := by
  obtain ⟨s, related, small⟩ := bounded
  exact Checked.simulates_safe related kTickSize_pos small

theorem base_bounds (priceHint : UInt32) :
    (LadderTraits.base priceHint).toNat ≤ LadderTraits.kMaxSanePrice.toNat := by
  unfold LadderTraits.base
  split
  next sane => exact UInt32.le_iff_toNat_le.mp sane.2
  next => decide

theorem around_ceiling (tight : ∀ p, (window p).toNat ≤ p.toNat) (priceHint : UInt32) :
    (Range.around LadderTraits.kTickSize.toNat (LadderBook.exactWindow window)
      (LadderTraits.base priceHint).toNat).ticks LadderTraits.kTickSize.toNat ≤ LadderBook.kMaxTicks := by
  have sane := base_bounds priceHint
  have narrow := tight (LadderTraits.base priceHint)
  have tick : LadderTraits.kTickSize.toNat = 100 := rfl
  have most : LadderTraits.kMaxSanePrice.toNat = 100000000 := rfl
  simp only [Range.ticks, Range.around, LadderBook.exactWindow_toNat, tick, LadderBook.kMaxTicks]
  omega

theorem bounded_fresh (tight : ∀ p, (window p).toNat ≤ p.toNat) (n : Nat) (priceHint : UInt32) :
    Bounded window n ((ladderBook (.within window tight)).make priceHint) := by
  obtain ⟨b, built, initial⟩ := LadderBook.construct_simulates LadderTraits.kTickSize
    (LadderTraits.base priceHint) (Conversion.within window tight).narrow
  have made : (ladderBook (.within window tight)).make priceHint = b := Option.get_of_eq_some _ built
  rw [made]
  exact ⟨_, initial.mono (Nat.zero_le n), around_ceiling tight priceHint⟩

theorem construct_checked (tight : ∀ p, (window p).toNat ≤ p.toNat) (priceHint : UInt32) :
    Checked.construct (LadderTraits.base priceHint) LadderTraits.kTickSize window =
      some ((ladderBook (.within window tight)).make priceHint) := by
  have same := Checked.construct_some (LadderTraits.base priceHint) LadderTraits.kTickSize
    (Conversion.within window tight).narrow
  exact same.trans (Option.some_get _).symm

end Reached

section Replay

variable {window : UInt32 → UInt64} (tight : ∀ p, (window p).toNat ≤ p.toNat)

theorem bounded_getD {n : Nat} {slot : Option LadderBook} (bounded : ∀ b, slot = some b → Bounded window n b)
    (priceHint : UInt32) :
    Bounded window n (slot.getD ((ladderBook (.within window tight)).make priceHint)) := by
  cases slot with
  | none => exact bounded_fresh tight n priceHint
  | some b => exact bounded b rfl

theorem build_bounded (seen : List Event) (short : seen.length < 2 ^ 32) (locate : UInt16) (b : LadderBook)
    (found : (build (ladderBook (.within window tight)) seen).books.find locate = some b) :
    Bounded window seen.length b := by
  induction seen using List.reverseRecOn generalizing b with
  | nil => simp [build, BookTable.find] at found
  | append_singleton seen e ih =>
    simp only [List.length_append, List.length_singleton] at short ⊢
    have before := ih (by omega)
    rw [build_append] at found
    by_cases here : addressed locate e
    · obtain ⟨r, asks, rfl⟩ := Option.map_eq_some_iff.mp here
      rw [request_find _ asks, if_pos rfl, Option.some.injEq, ladderBook_call] at found
      rw [← found]
      exact (bounded_getD tight before r.priceHint).call (Conversion.within window tight).narrow short r.call
    · rw [unaddressed_find _ here] at found
      exact (before b found).weaken

/-- Whatever bytes arrive, every ladder met on the way keeps its extent and its
orders in bounds, and neither construction, nor any call, nor either reading
meets an index out of range, a wrapped price, a counter below zero or a throw. -/
theorem ladders_in_bounds (window : UInt32 → UInt64) (tight : ∀ p, (window p).toNat ≤ p.toNat)
    (data : List UInt8) (short : (events data).length < 2 ^ 32) :
    let api := ladderBook (.within window tight)
    (∀ priceHint, Checked.construct (LadderTraits.base priceHint) LadderTraits.kTickSize window =
      some (api.make priceHint)) ∧
    parseStream (handler api) data {} = (build api (events data), (events data).length) ∧
    ∀ seen rest, events data = seen ++ rest →
      (∀ locate b, (build api seen).books.find locate = some b →
        Checked.Safe b ∧ Checked.best b b.bid = some b.bestBid ∧ Checked.best b b.ask = some b.bestAsk) ∧
      ∀ e later r, rest = e :: later → request e = some r →
        Checked.Safe (((build api seen).books.find r.locate).getD (api.make r.priceHint)) ∧
        Checked.call (((build api seen).books.find r.locate).getD (api.make r.priceHint)) r.call =
          some (api.call (((build api seen).books.find r.locate).getD (api.make r.priceHint)) r.call) := by
  intro api
  refine ⟨construct_checked tight, parseStream_build api data, fun seen rest split => ⟨?_, ?_⟩⟩
  all_goals
    have bound : seen.length + rest.length < 2 ^ 32 := by
      rw [← List.length_append, ← split]
      exact short
  · intro locate b found
    have bounded := build_bounded tight seen (by omega) locate b found
    have safe := bounded.safe
    obtain ⟨s, related, -⟩ := bounded
    exact ⟨safe, Checked.best_some related.valid kTickSize_pos true,
      Checked.best_some related.valid kTickSize_pos false⟩
  · rintro e later r rfl asks
    have bounded := bounded_getD tight (build_bounded tight seen (by omega) r.locate) r.priceHint
    refine ⟨bounded.safe, ?_⟩
    obtain ⟨s, related, -⟩ := bounded
    rw [ladderBook_call]
    exact Checked.call_some related kTickSize_pos (Conversion.within window tight).narrow r.call

theorem thirty_tight (price : UInt32) : (LadderBook.thirty price).toNat ≤ price.toNat := by
  rw [LadderBook.thirty_toNat]
  omega

-- An add at locate 1 and price 1000, then one at the top of the price range.
def hostile : List UInt8 :=
  [0, 36, 65, 0, 1, 0, 0, 0, 0, 0, 0, 0, 0, 0, 0, 0, 0, 0, 0, 0, 7, 66, 0, 0, 0, 10,
    32, 32, 32, 32, 32, 32, 32, 32, 0, 0, 3, 232,
    0, 36, 65, 0, 1, 0, 0, 0, 0, 0, 0, 0, 0, 0, 0, 0, 0, 0, 0, 0, 8, 66, 0, 0, 0, 10,
    32, 32, 32, 32, 32, 32, 32, 32, 255, 255, 255, 255]

theorem ladders_in_bounds_hostile :
    (events hostile).length = 2 ∧
      ∃ b, (build (ladderBook (.within LadderBook.thirty thirty_tight)) (events hostile)).books.find 1 = some b ∧
        Checked.Safe b := by
  have count : (events hostile).length = 2 := by decide
  have present :
      ((build (ladderBook (.within LadderBook.thirty thirty_tight)) (events hostile)).books.find 1).isSome := by decide
  obtain ⟨b, found⟩ := Option.isSome_iff_exists.mp present
  obtain ⟨-, -, safe⟩ := ladders_in_bounds LadderBook.thirty thirty_tight hostile (by rw [count]; decide)
  obtain ⟨books, -⟩ := safe (events hostile) [] (List.append_nil _).symm
  exact ⟨count, b, found, (books 1 b found).1⟩

end Replay

end ItchLob.Pipeline
