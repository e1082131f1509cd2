import ItchLob.Book.Locator

set_option autoImplicit false

namespace ItchLob.Book

open Itch FiniteMap

-- std::map is a finite map whose begin() is the first key in its comparator's
-- order: the greatest price for bids, the least for asks.
abbrev Levels := Map UInt32 Level

structure OrderBook where
  bids : Levels := ∅
  asks : Levels := ∅
  orders : Orders := ∅

def levelAdd (levels : Levels) (price shares : UInt32) : Levels :=
  let lvl := (levels.lookup price).getD {}
  levels.insert price { shares := lvl.shares + shares.toUInt64, orders := lvl.orders + 1 }

def subIn (m : Levels) (price shares : UInt32) (orderGone : Bool) : Levels :=
  match m.lookup price with
  | none => m
  | some l =>
    let left := l.shares - (if shares.toUInt64 < l.shares then shares.toUInt64 else l.shares)
    let count := if orderGone && 0 < l.orders then l.orders - 1 else l.orders
    if count = 0 then m.erase price else m.insert price { shares := left, orders := count }

namespace OrderBook

def add (b : OrderBook) (ref : UInt64) (side : Side) (shares price : UInt32) : Bool × OrderBook :=
  match b.orders.lookup ref with
  | some _ => (false, b)
  | none =>
    let b := { b with orders := b.orders.insert ref ⟨shares, price, side⟩ }
    if side = Side.buy then (true, { b with bids := levelAdd b.bids price shares })
    else (true, { b with asks := levelAdd b.asks price shares })

def levelSub (b : OrderBook) (side : Side) (price shares : UInt32) (orderGone : Bool) : OrderBook :=
  if side = Side.buy then { b with bids := subIn b.bids price shares orderGone }
  else { b with asks := subIn b.asks price shares orderGone }

def locator : Locator OrderBook where
  orders := orders
  setOrders := fun b orders => { b with orders := orders }
  levelSub := levelSub

def reduce (b : OrderBook) (ref : UInt64) (shares : UInt32) : Bool × OrderBook :=
  locator.reduce b ref shares

def execute (b : OrderBook) (ref : UInt64) (shares : UInt32) : Bool × OrderBook := b.reduce ref shares
def cancel (b : OrderBook) (ref : UInt64) (shares : UInt32) : Bool × OrderBook := b.reduce ref shares

def remove (b : OrderBook) (ref : UInt64) : Bool × OrderBook := locator.remove b ref

def replace (b : OrderBook) (orig next : UInt64) (shares price : UInt32) : Bool × OrderBook :=
  locator.replace add b orig next shares price

def call (b : OrderBook) : Call → Bool × OrderBook
  | .add ref side shares price => b.add ref side shares price
  | .execute ref shares => b.execute ref shares
  | .cancel ref shares => b.cancel ref shares
  | .remove ref => b.remove ref
  | .replace orig next shares price => b.replace orig next shares price

def front (first : List UInt32 → Option UInt32) (levels : Levels) : Option Quote :=
  match first levels.keys with
  | none => none
  | some price => some { price, shares := ((levels.lookup price).getD {}).shares }

def bestBid (b : OrderBook) : Option Quote := front List.max? b.bids
def bestAsk (b : OrderBook) : Option Quote := front List.min? b.asks

def openOrders (b : OrderBook) : Nat := size b.orders
def bidLevels (b : OrderBook) : Nat := size b.bids
def askLevels (b : OrderBook) : Nat := size b.asks

end OrderBook

def Quote.exact (q : Quote) : Nat × Nat := (q.price.toNat, q.shares.toNat)

def OrderBook.view (b : OrderBook) : View :=
  { bestBid := b.bestBid.map Quote.exact
    bestAsk := b.bestAsk.map Quote.exact
    openOrders := b.openOrders
    bidLevels := b.bidLevels
    askLevels := b.askLevels }

def Gate.free : Gate Unit := ⟨fun _ _ => (true, ())⟩

structure Tracks (m : Levels) (d : Depth) : Prop where
  absent : ∀ p : UInt32, m.lookup p = none ↔ d.orders p.toNat = 0
  count : ∀ (p : UInt32) l, m.lookup p = some l → l.orders.toNat = d.orders p.toNat
  sum : ∀ (p : UInt32) l, m.lookup p = some l → l.shares.toNat = d.shares p.toNat
  levels : size m = d.levels
  representable : ∀ p, 0 < d.orders p → p < 2 ^ 32

section Tracks

variable {m : Levels} {d : Depth} {price shares : UInt32}

theorem Tracks.found (tracks : Tracks m d) (occupied : 0 < d.orders price.toNat) :
    ∃ l, m.lookup price = some l ∧ l.orders.toNat = d.orders price.toNat ∧
      l.shares.toNat = d.shares price.toNat := by
  cases found : m.lookup price with
  | none => exact absurd ((tracks.absent price).mp found) (Nat.pos_iff_ne_zero.mp occupied)
  | some l => exact ⟨l, rfl, tracks.count price l found, tracks.sum price l found⟩

theorem Tracks.insert (tracks : Tracks m d) (l : Level) {e : Depth}
    (orders : ∀ p, e.orders p = if p = price.toNat then l.orders.toNat else d.orders p)
    (sums : ∀ p, e.shares p = if p = price.toNat then l.shares.toNat else d.shares p)
    (levels : e.levels = if d.orders price.toNat = 0 then d.levels + 1 else d.levels)
    (occupied : 0 < l.orders.toNat) : Tracks (m.insert price l) e := by
  have same (p : UInt32) : p.toNat = price.toNat ↔ p = price := UInt32.toNat_inj
  refine ⟨?_, ?_, ?_, ?_, ?_⟩
  · intro p
    rw [lookup_insert_eq, orders]
    by_cases here : p = price
    · simp [here, Nat.pos_iff_ne_zero.mp occupied]
    · simpa [here, same] using tracks.absent p
  · intro p l' found
    rw [lookup_insert_eq] at found
    rw [orders]
    by_cases here : p = price
    · rw [if_pos here] at found
      rw [if_pos ((same p).mpr here), Option.some.inj found]
    · rw [if_neg here] at found
      rw [if_neg fun equal => here ((same p).mp equal), tracks.count p l' found]
  · intro p l' found
    rw [lookup_insert_eq] at found
    rw [sums]
    by_cases here : p = price
    · rw [if_pos here] at found
      rw [if_pos ((same p).mpr here), Option.some.inj found]
    · rw [if_neg here] at found
      rw [if_neg fun equal => here ((same p).mp equal), tracks.sum p l' found]
  · rw [levels]
    by_cases fresh : d.orders price.toNat = 0
    · rw [if_pos fresh, size_insert_fresh _ ((tracks.absent price).mpr fresh), tracks.levels]
    · obtain ⟨l', found, -⟩ := tracks.found (Nat.pos_of_ne_zero fresh)
      rw [if_neg fresh, size_insert_found _ found, tracks.levels]
  · intro p positive
    rw [orders] at positive
    by_cases here : p = price.toNat
    · rw [here]
      exact price.toNat_lt
    · exact tracks.representable p (by simpa [here] using positive)

theorem Tracks.credit (tracks : Tracks m d) (empty : ∀ p, d.orders p = 0 → d.shares p = 0)
    (count : d.orders price.toNat + 1 < 2 ^ 32)
    (sum : d.shares price.toNat + shares.toNat < 2 ^ 64) :
    Tracks (levelAdd m price shares) (d.credit price.toNat shares.toNat) := by
  have current : ((m.lookup price).getD {}).orders.toNat = d.orders price.toNat ∧
      ((m.lookup price).getD {}).shares.toNat = d.shares price.toNat := by
    cases found : m.lookup price with
    | none =>
      have none := (tracks.absent price).mp found
      simp [none, empty _ none]
    | some l => exact ⟨tracks.count price l found, tracks.sum price l found⟩
  have added : (((m.lookup price).getD {}).orders + 1).toNat = d.orders price.toNat + 1 := by
    rw [UInt32.toNat_add, current.1]
    exact Nat.mod_eq_of_lt count
  have summed : (((m.lookup price).getD {}).shares + shares.toUInt64).toNat =
      d.shares price.toNat + shares.toNat := by
    rw [UInt64.toNat_add, current.2, UInt32.toNat_toUInt64]
    exact Nat.mod_eq_of_lt sum
  apply tracks.insert
  · intro p
    by_cases here : p = price.toNat <;> simp [Depth.credit, here, added]
  · intro p
    by_cases here : p = price.toNat <;> simp [Depth.credit, here, summed]
  · rfl
  · rw [added]
    omega

theorem clamp_sub (l : Level) (shares : UInt32) (within : shares.toNat ≤ l.shares.toNat) :
    (l.shares - (if shares.toUInt64 < l.shares then shares.toUInt64 else l.shares)).toNat =
      l.shares.toNat - shares.toNat := by
  by_cases less : shares.toUInt64 < l.shares
  · rw [if_pos less, UInt64.toNat_sub_of_le _ _ (UInt64.le_of_lt less), UInt32.toNat_toUInt64]
  · rw [if_neg less, UInt64.toNat_sub_of_le _ _ (UInt64.le_refl _)]
    rw [UInt64.lt_iff_toNat_lt, UInt32.toNat_toUInt64] at less
    omega

theorem Tracks.shrink (tracks : Tracks m d) (occupied : 0 < d.orders price.toNat)
    (within : shares.toNat ≤ d.shares price.toNat) :
    Tracks (subIn m price shares false) (d.shrink price.toNat shares.toNat) := by
  obtain ⟨l, found, count, sum⟩ := tracks.found occupied
  have left := clamp_sub l shares (by omega)
  have stays : l.orders ≠ 0 := by
    intro zero
    rw [zero, UInt32.toNat_zero] at count
    omega
  simp only [subIn, found, Bool.false_and, Bool.false_eq_true, if_false, stays]
  apply tracks.insert
  · intro p
    by_cases here : p = price.toNat <;> simp [Depth.shrink, here, count]
  · intro p
    by_cases here : p = price.toNat <;> simp [Depth.shrink, here, left, sum]
  · rw [if_neg (Nat.pos_iff_ne_zero.mp occupied)]
    rfl
  · change 0 < l.orders.toNat
    omega

theorem Tracks.debit (tracks : Tracks m d) (occupied : 0 < d.orders price.toNat)
    (within : shares.toNat ≤ d.shares price.toNat) :
    Tracks (subIn m price shares true) (d.debit price.toNat shares.toNat) := by
  obtain ⟨l, found, count, sum⟩ := tracks.found occupied
  have left := clamp_sub l shares (by omega)
  have positive : 0 < l.orders := by
    rw [UInt32.lt_iff_toNat_lt, UInt32.toNat_zero]
    omega
  have fewer : (l.orders - 1).toNat = d.orders price.toNat - 1 := by
    rw [UInt32.toNat_sub_of_le _ _ (by rw [UInt32.le_iff_toNat_le, UInt32.toNat_one]; omega), count]
    rfl
  have same (p : UInt32) : p.toNat = price.toNat ↔ p = price := UInt32.toNat_inj
  simp only [subIn, found, Bool.true_and, positive, decide_true, if_true]
  by_cases last : d.orders price.toNat = 1
  · -- The level empties and is erased at once.
    have zero : l.orders - 1 = 0 := UInt32.toNat_inj.mp (by rw [fewer, last]; rfl)
    rw [if_pos zero]
    refine ⟨?_, ?_, ?_, ?_, ?_⟩
    · intro p
      rw [lookup_erase_eq]
      by_cases here : p = price
      · simp [here, Depth.debit, last]
      · simpa [here, same, Depth.debit] using tracks.absent p
    · intro p l' found'
      rw [lookup_erase_eq] at found'
      by_cases here : p = price
      · simp [here] at found'
      · rw [if_neg here] at found'
        simpa [here, same, Depth.debit] using tracks.count p l' found'
    · intro p l' found'
      rw [lookup_erase_eq] at found'
      by_cases here : p = price
      · simp [here] at found'
      · rw [if_neg here] at found'
        simpa [here, same, Depth.debit] using tracks.sum p l' found'
    · have smaller := size_erase found
      have levels := tracks.levels
      simp only [Depth.debit, last, if_true]
      omega
    · intro p positive
      apply tracks.representable p
      simp only [Depth.debit] at positive
      split at positive <;> omega
  · have stays : l.orders - 1 ≠ 0 := by
      intro zero
      rw [zero, UInt32.toNat_zero] at fewer
      omega
    rw [if_neg stays]
    apply tracks.insert
    · intro p
      by_cases here : p = price.toNat <;> simp [Depth.debit, here, fewer]
    · intro p
      by_cases here : p = price.toNat <;> simp [Depth.debit, here, left, sum]
    · simp [Depth.debit, last, Nat.pos_iff_ne_zero.mp occupied]
    · rw [fewer]
      omega

instance lawfulOrderMax : Std.LawfulOrderMax UInt32 where
  max_eq_or a b := by
    by_cases le : a ≤ b
    · exact .inr (if_pos le)
    · exact .inl (if_neg le)
  max_le_iff a b c := by
    by_cases le : a ≤ b
    · rw [show max a b = b from if_pos le]
      exact ⟨fun h => ⟨UInt32.le_trans le h, h⟩, And.right⟩
    · rw [show max a b = a from if_neg le]
      have ge : b ≤ a := UInt32.le_of_lt (UInt32.not_le.mp le)
      exact ⟨fun h => ⟨h, UInt32.le_trans ge h⟩, And.left⟩

instance lawfulOrderMin : Std.LawfulOrderMin UInt32 where
  min_eq_or a b := by
    by_cases le : a ≤ b
    · exact .inl (if_pos le)
    · exact .inr (if_neg le)
  le_min_iff a b c := by
    by_cases le : b ≤ c
    · rw [show min b c = b from if_pos le]
      exact ⟨fun h => ⟨h, UInt32.le_trans h le⟩, And.left⟩
    · rw [show min b c = c from if_neg le]
      have ge : c ≤ b := UInt32.le_of_lt (UInt32.not_le.mp le)
      exact ⟨fun h => ⟨UInt32.le_trans h ge, h⟩, And.right⟩

theorem Tracks.mem_keys (tracks : Tracks m d) (p : UInt32) : p ∈ m.keys ↔ 0 < d.orders p.toNat := by
  rw [← AList.mem_keys, Nat.pos_iff_ne_zero, Ne, ← tracks.absent p, AList.lookup_eq_none, not_not]

theorem Tracks.no_key (tracks : Tracks m d) (none : m.keys = []) (p : Nat) : d.orders p = 0 := by
  by_contra occupied
  have fits := tracks.representable p (Nat.pos_of_ne_zero occupied)
  have member := (tracks.mem_keys (UInt32.ofNat p)).mpr (by
    rw [UInt32.toNat_ofNat_of_lt' fits]
    exact Nat.pos_of_ne_zero occupied)
  simp [none] at member

theorem Tracks.max_isBest (tracks : Tracks m d) : d.IsBest true (m.keys.max?.map UInt32.toNat) := by
  cases best : m.keys.max? with
  | none => exact tracks.no_key (List.max?_eq_none_iff.mp best)
  | some p =>
    obtain ⟨member, above⟩ := List.max?_eq_some_iff.mp best
    refine ⟨(tracks.mem_keys p).mp member, fun q occupied => ?_⟩
    have fits := tracks.representable q occupied
    have listed := above (UInt32.ofNat q) ((tracks.mem_keys _).mpr (by
      rwa [UInt32.toNat_ofNat_of_lt' fits]))
    rwa [UInt32.le_iff_toNat_le, UInt32.toNat_ofNat_of_lt' fits] at listed

theorem Tracks.min_isBest (tracks : Tracks m d) : d.IsBest false (m.keys.min?.map UInt32.toNat) := by
  cases best : m.keys.min? with
  | none => exact tracks.no_key (List.min?_eq_none_iff.mp best)
  | some p =>
    obtain ⟨member, below⟩ := List.min?_eq_some_iff.mp best
    refine ⟨(tracks.mem_keys p).mp member, fun q occupied => ?_⟩
    have fits := tracks.representable q occupied
    have listed := below (UInt32.ofNat q) ((tracks.mem_keys _).mpr (by
      rwa [UInt32.toNat_ofNat_of_lt' fits]))
    rwa [UInt32.le_iff_toNat_le, UInt32.toNat_ofNat_of_lt' fits] at listed

end Tracks

end ItchLob.Book
