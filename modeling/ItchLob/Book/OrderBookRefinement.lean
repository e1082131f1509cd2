import ItchLob.Book.OrderBook

set_option autoImplicit false

namespace ItchLob.Book

open Itch FiniteMap

namespace OrderBook

def side (b : OrderBook) (bid : Bool) : Levels := if bid then b.bids else b.asks

def Represents (b : OrderBook) (d : Bool → Depth) : Prop := ∀ bid, Tracks (b.side bid) (d bid)

abbrev Simulates := Related locator (fun _ => ()) Represents

theorem levelSub_side (b : OrderBook) (s : Side) (price shares : UInt32) (gone bid : Bool) :
    (b.levelSub s price shares gone).side bid =
      if isBuy s = bid then subIn (b.side bid) price shares gone else b.side bid := by
  by_cases buy : s = Side.buy <;> cases bid <;> simp [levelSub, side, isBuy, buy]

theorem levelSub_orders (b : OrderBook) (s : Side) (price shares : UInt32) (gone : Bool) :
    (b.levelSub s price shares gone).orders = b.orders := by
  unfold levelSub
  split <;> rfl

theorem locator_sound : locator.Sound (fun _ => ()) Represents where
  orders_set _ _ := rfl
  gate_set _ _ := rfl
  valid_set _ _ _ valid := valid
  orders_sub := levelSub_orders
  gate_sub _ _ _ _ _ := rfl
  shrink b d s price shares valid occupied within := by
    intro bid
    change Tracks ((b.levelSub s price shares false).side bid) _
    rw [levelSub_side]
    by_cases here : isBuy s = bid
    · subst here
      simpa [onSide] using (valid _).shrink occupied within
    · simpa [onSide, here] using valid bid
  debit b d s price shares valid occupied within _ := by
    intro bid
    change Tracks ((b.levelSub s price shares true).side bid) _
    rw [levelSub_side]
    by_cases here : isBuy s = bid
    · subst here
      simpa [onSide] using (valid _).debit occupied within
    · simpa [onSide, here] using valid bid

theorem add_simulates {n : Nat} {b : OrderBook} {s : Naive Unit} (few : n + 1 < 2 ^ 32)
    (related : Simulates n b s) (ref : UInt64) (sd : Side) (shares price : UInt32) :
    (b.add ref sd shares price).1 = (s.add Gate.free ref sd shares price).1 ∧
      Simulates (n + 1) (b.add ref sd shares price).2 (s.add Gate.free ref sd shares price).2 := by
  obtain ⟨same, gated, valid, bound⟩ := related
  change b.orders = s.orders at same
  simp only [add, Naive.add, Gate.free, if_true, same]
  cases found : s.orders.lookup ref with
  | some o => exact ⟨rfl, same, rfl, valid, bound.trans (Nat.le_succ n)⟩
  | none =>
    have grown := size_insert_fresh (⟨shares, price, sd⟩ : Order) found
    have moved (bid : Bool) := depth_insert bid found ⟨shares, price, sd⟩
    have credited (bid : Bool) : Tracks (levelAdd (b.side bid) price shares)
        ((depth bid s.orders).credit price.toNat shares.toNat) := by
      have count := ordersAt_le_size bid s.orders price.toNat
      have sum := sharesAt_le_size bid s.orders price.toNat
      have small := shares.toNat_lt
      have scaled := Nat.mul_le_mul_right (2 ^ 32 - 1) bound
      refine (valid bid).credit (sharesAt_unoccupied bid s.orders) ?_ ?_
      · change ordersAt bid s.orders price.toNat + 1 < 2 ^ 32
        omega
      · change sharesAt bid s.orders price.toNat + shares.toNat < 2 ^ 64
        omega
    have size : size (s.orders.insert ref ⟨shares, price, sd⟩) ≤ n + 1 := by omega
    by_cases buy : sd = Side.buy
    · simp only [buy, if_true] at size ⊢
      refine ⟨trivial, rfl, rfl, ?_, size⟩
      subst buy
      intro bid
      cases bid with
      | true => simpa [depths, moved, Order.isBid, side] using credited true
      | false => simpa [depths, moved, Order.isBid, side] using valid false
    · simp only [buy, if_false] at size ⊢
      refine ⟨trivial, rfl, rfl, ?_, size⟩
      intro bid
      cases bid with
      | true => simpa [depths, moved, Order.isBid, side, buy] using valid true
      | false => simpa [depths, moved, Order.isBid, side, buy] using credited false

theorem call_simulates {n : Nat} {b : OrderBook} {s : Naive Unit} (few : n + 1 < 2 ^ 32)
    (related : Simulates n b s) (c : Call) :
    (b.call c).1 = (s.call Gate.free c).1 ∧ Simulates (n + 1) (b.call c).2 (s.call Gate.free c).2 := by
  cases c with
  | add ref sd shares price => exact add_simulates few related ref sd shares price
  | execute ref shares | cancel ref shares =>
    obtain ⟨answer, next⟩ := related.reduce locator_sound ref shares
    exact ⟨answer, next.weaken⟩
  | remove ref =>
    obtain ⟨answer, next⟩ := related.remove locator_sound ref
    exact ⟨answer, next.weaken⟩
  | replace orig next shares price =>
    exact related.replace locator_sound Gate.free add
      (fun b' s' start ref sd q p => add_simulates few start ref sd q p) orig next shares price

theorem call_bounded :
    Simulation.Bounded (2 ^ 32 - 1) call (Naive.call Gate.free) Simulates where
  answer _ _ _ c bound related := (call_simulates (by omega) related c).1
  next _ _ _ c bound related := (call_simulates (by omega) related c).2

theorem front_best {b : OrderBook} {orders : Orders} (bid : Bool) {first : List UInt32 → Option UInt32}
    (tracks : Tracks (b.side bid) (depth bid orders))
    (best : (depth bid orders).IsBest bid ((first (b.side bid).keys).map UInt32.toNat)) :
    (front first (b.side bid)).map Quote.exact = bestQuote bid orders := by
  rw [bestQuote, ← best.unique (bestPrice_isBest bid orders)]
  unfold front
  cases chosen : first (b.side bid).keys with
  | none => rfl
  | some p =>
    rw [chosen] at best
    obtain ⟨l, found, -, sum⟩ := tracks.found best.1
    simpa [Quote.exact, found, depth] using sum

theorem simulates_view {n : Nat} {b : OrderBook} {s : Naive Unit} (related : Simulates n b s) :
    b.view = Book.view s.orders := by
  obtain ⟨same, -, valid, -⟩ := related
  change b.orders = s.orders at same
  have bids := front_best true (valid true) (valid true).max_isBest
  have asks := front_best false (valid false) (valid false).min_isBest
  simp only [view, Book.view, bestBid, bestAsk, openOrders, bidLevels, askLevels, View.mk.injEq]
  exact ⟨bids, asks, by rw [same], (valid true).levels, (valid false).levels⟩

theorem init_simulates : Simulates 0 {} ⟨∅, ()⟩ := by
  refine ⟨rfl, rfl, ?_, Nat.le_refl _⟩
  intro bid
  have empty : depth bid (∅ : Orders) = ⟨fun _ => 0, fun _ => 0, 0⟩ := rfl
  simp only [depths, empty]
  cases bid <;> exact ⟨by simp [side], by simp [side], by simp [side], rfl, by simp⟩

theorem add_refused {b : OrderBook} {ref : UInt64} {sd : Side} {shares price : UInt32}
    (refused : (b.add ref sd shares price).1 = false) : (b.add ref sd shares price).2 = b := by
  unfold add at refused ⊢
  cases found : b.orders.lookup ref with
  | some _ => rfl
  | none =>
    rw [found] at refused
    simp only at refused
    split at refused <;> simp at refused

theorem replace_refused (b : OrderBook) (orig next : UInt64) (shares price : UInt32)
    (refused : (b.replace orig next shares price).1 = false) :
    (b.orders.lookup orig = none ∧ (b.replace orig next shares price).2 = b) ∨
      (b.orders.lookup orig ≠ none ∧ (b.replace orig next shares price).2 = (b.remove orig).2) := by
  unfold replace Locator.replace at refused ⊢
  cases found : (locator.orders b).lookup orig with
  | none => exact .inl ⟨found, rfl⟩
  | some o =>
    rw [found] at refused
    refine .inr ⟨?_, add_refused refused⟩
    rw [show b.orders.lookup orig = some o from found]
    simp

/-- The map-backed book is the naive order map: every answer and every reading
along every run, and in the state reached the level aggregates are exact. -/
theorem refines_naive (calls : List Call) (short : calls.length < 2 ^ 32) :
    Simulation.trace call view {} calls =
        Simulation.trace (Naive.call Gate.free) (fun s => Book.view s.orders) ⟨∅, ()⟩ calls ∧
      (let b := Simulation.run call {} calls
      (∀ bid (price : UInt32), ((b.side bid).lookup price).isSome ↔
        ∃ ref o, b.orders.lookup ref = some o ∧ o.isBid = bid ∧ o.price = price) ∧
      (∀ bid (price : UInt32) l, (b.side bid).lookup price = some l →
        l.shares.toNat = sharesAt bid b.orders price.toNat ∧
        l.orders.toNat = ordersAt bid b.orders price.toNat) ∧
      ∀ orig next shares price, (b.replace orig next shares price).1 = false →
        (b.orders.lookup orig = none ∧ (b.replace orig next shares price).2 = b) ∨
        (b.orders.lookup orig ≠ none ∧
          (b.replace orig next shares price).2 = (b.remove orig).2)) := by
  have views (n : Nat) (b : OrderBook) (s : Naive Unit) (_ : n ≤ 2 ^ 32 - 1)
      (related : Simulates n b s) : b.view = Book.view s.orders := simulates_view related
  refine ⟨call_bounded.trace_eq views calls 0 (by omega) _ _ init_simulates, ?_⟩
  obtain ⟨same, -, valid, -⟩ := call_bounded.run_related calls 0 (by omega) _ _ init_simulates
  generalize Simulation.run call {} calls = b at same valid
  generalize Simulation.run (Naive.call Gate.free) ⟨∅, ()⟩ calls = s at same valid
  change b.orders = s.orders at same
  refine ⟨?_, ?_, fun orig next shares price => replace_refused b orig next shares price⟩
  · intro bid price
    have absent := (valid bid).absent price
    have occupied := ordersAt_pos bid s.orders price.toNat
    rw [same, ← Option.ne_none_iff_isSome, Ne, absent, ← Ne, ← Nat.pos_iff_ne_zero]
    change 0 < ordersAt bid s.orders price.toNat ↔ _
    rw [occupied]
    simp only [restsAt_iff, UInt32.toNat_inj, eq_comm (a := price)]
  · intro bid price l found
    rw [same]
    exact ⟨(valid bid).sum price l found, (valid bid).count price l found⟩

theorem refines_naive_replace_onto_live :
    let calls := [Call.add 1 Side.buy 100 10, .add 2 Side.sell 0 12, .replace 1 2 50 11, .execute 2 5]
    Simulation.trace call view {} calls =
        Simulation.trace (Naive.call Gate.free) (fun s => Book.view s.orders) ⟨∅, ()⟩ calls ∧
      (Simulation.trace call view {} calls).map Prod.fst = [true, true, false, true] :=
  ⟨(refines_naive _ (by decide)).1, by decide⟩

end OrderBook

end ItchLob.Book
