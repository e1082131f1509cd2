import ItchLob.Shared.FiniteMap
import ItchLob.Itch.Messages

set_option autoImplicit false

namespace ItchLob.Book

open Itch FiniteMap

structure Order where
  shares : UInt32
  price : UInt32
  side : Side
  deriving DecidableEq, Repr

structure Level where
  shares : UInt64 := 0
  orders : UInt32 := 0
  deriving DecidableEq, Repr

structure Quote where
  price : UInt32 := 0
  shares : UInt64 := 0
  deriving DecidableEq, Repr

inductive Call where
  | add (ref : UInt64) (side : Side) (shares price : UInt32)
  | execute (ref : UInt64) (shares : UInt32)
  | cancel (ref : UInt64) (shares : UInt32)
  | remove (ref : UInt64)
  | replace (orig next : UInt64) (shares price : UInt32)
  deriving DecidableEq, Repr

abbrev Orders := Map UInt64 Order

def Order.isBid (o : Order) : Bool := o.side = Side.buy

@[ext] structure Depth where
  orders : Nat → Nat
  shares : Nat → Nat
  levels : Nat

def Depth.credit (d : Depth) (price quantity : Nat) : Depth :=
  { orders := fun p => if p = price then d.orders p + 1 else d.orders p
    shares := fun p => if p = price then d.shares p + quantity else d.shares p
    levels := if d.orders price = 0 then d.levels + 1 else d.levels }

def Depth.shrink (d : Depth) (price quantity : Nat) : Depth :=
  { d with shares := fun p => if p = price then d.shares p - quantity else d.shares p }

def Depth.debit (d : Depth) (price quantity : Nat) : Depth :=
  { orders := fun p => if p = price then d.orders p - 1 else d.orders p
    shares := fun p => if p = price then d.shares p - quantity else d.shares p
    levels := if d.orders price = 1 then d.levels - 1 else d.levels }

-- The best bid is the highest occupied price, the best ask the lowest.
def Depth.IsBest (bid : Bool) (d : Depth) : Option Nat → Prop
  | none => ∀ p, d.orders p = 0
  | some p => 0 < d.orders p ∧ ∀ q, 0 < d.orders q → if bid then q ≤ p else p ≤ q

theorem Depth.IsBest.unique {bid : Bool} {d : Depth} {a b : Option Nat}
    (left : d.IsBest bid a) (right : d.IsBest bid b) : a = b := by
  cases a with
  | none =>
    cases b with
    | none => rfl
    | some q => exact absurd (left q) (Nat.pos_iff_ne_zero.mp right.1)
  | some p =>
    cases b with
    | none => exact absurd (right p) (Nat.pos_iff_ne_zero.mp left.1)
    | some q =>
      have forward := left.2 q right.1
      have backward := right.2 p left.1
      cases bid <;> simp only [if_true, Bool.false_eq_true, if_false] at forward backward <;>
        exact congrArg some (by omega)

def prices (bid : Bool) (orders : Orders) : List Nat :=
  ((orders.entries.map Sigma.snd).filter fun o => o.isBid == bid).map fun o => o.price.toNat

def restsAt (bid : Bool) (price : Nat) (o : Order) : Bool :=
  o.isBid == bid && o.price.toNat == price

def ordersAt (bid : Bool) (orders : Orders) (price : Nat) : Nat :=
  total (fun o => if restsAt bid price o then 1 else 0) orders

def sharesAt (bid : Bool) (orders : Orders) (price : Nat) : Nat :=
  total (fun o => if restsAt bid price o then o.shares.toNat else 0) orders

def levelCount (bid : Bool) (orders : Orders) : Nat := (prices bid orders).dedup.length

def bestPrice (bid : Bool) (orders : Orders) : Option Nat :=
  if bid then (prices bid orders).max? else (prices bid orders).min?

def bestQuote (bid : Bool) (orders : Orders) : Option (Nat × Nat) :=
  (bestPrice bid orders).map fun p => (p, sharesAt bid orders p)

structure View where
  bestBid : Option (Nat × Nat)
  bestAsk : Option (Nat × Nat)
  openOrders : Nat
  bidLevels : Nat
  askLevels : Nat
  deriving DecidableEq, Repr

def view (orders : Orders) : View :=
  { bestBid := bestQuote true orders
    bestAsk := bestQuote false orders
    openOrders := size orders
    bidLevels := levelCount true orders
    askLevels := levelCount false orders }

def depth (bid : Bool) (orders : Orders) : Depth :=
  ⟨ordersAt bid orders, sharesAt bid orders, levelCount bid orders⟩

section Scans

variable (bid : Bool) {orders : Orders} {ref : UInt64} {o : Order}

theorem ordersAt_pos (orders : Orders) (price : Nat) :
    0 < ordersAt bid orders price ↔ ∃ ref o, orders.lookup ref = some o ∧ restsAt bid price o := by
  rw [ordersAt, total_pos]
  constructor
  · rintro ⟨ref, o, found, positive⟩
    exact ⟨ref, o, found, by by_contra miss; simp [miss] at positive⟩
  · rintro ⟨ref, o, found, rests⟩
    exact ⟨ref, o, found, by simp [rests]⟩

theorem mem_prices (orders : Orders) (price : Nat) :
    price ∈ prices bid orders ↔ 0 < ordersAt bid orders price := by
  rw [ordersAt_pos]
  simp only [prices, List.mem_map, List.mem_filter, restsAt, Bool.and_eq_true, beq_iff_eq]
  constructor
  · rintro ⟨o, ⟨⟨entry, inside, rfl⟩, side⟩, rfl⟩
    exact ⟨entry.1, entry.2, lookup_iff_entry.mpr inside, side, rfl⟩
  · rintro ⟨ref, o, found, side, rfl⟩
    exact ⟨o, ⟨⟨⟨ref, o⟩, lookup_iff_entry.mp found, rfl⟩, side⟩, rfl⟩

theorem bestPrice_isBest (orders : Orders) : (depth bid orders).IsBest bid (bestPrice bid orders) := by
  have empty (none : prices bid orders = []) (p : Nat) : ordersAt bid orders p = 0 := by
    by_contra occupied
    have member := (mem_prices bid orders p).mpr (Nat.pos_of_ne_zero occupied)
    simp [none] at member
  unfold bestPrice
  cases bid with
  | true =>
    simp only [if_true]
    cases best : (prices true orders).max? with
    | none => exact empty (List.max?_eq_none_iff.mp best)
    | some p =>
      obtain ⟨member, above⟩ := List.max?_eq_some_iff.mp best
      exact ⟨(mem_prices true orders p).mp member,
        fun q occupied => above q ((mem_prices true orders q).mpr occupied)⟩
  | false =>
    simp only [Bool.false_eq_true, if_false]
    cases best : (prices false orders).min? with
    | none => exact empty (List.min?_eq_none_iff.mp best)
    | some p =>
      obtain ⟨member, below⟩ := List.min?_eq_some_iff.mp best
      exact ⟨(mem_prices false orders p).mp member,
        fun q occupied => below q ((mem_prices false orders q).mpr occupied)⟩

theorem levelCount_card (orders : Orders) :
    levelCount bid orders = (prices bid orders).toFinset.card :=
  (List.card_toFinset _).symm

theorem levelCount_pos {price : Nat} (occupied : 0 < ordersAt bid orders price) :
    0 < levelCount bid orders := by
  rw [levelCount_card, Finset.card_pos]
  exact ⟨price, List.mem_toFinset.mpr ((mem_prices bid orders price).mpr occupied)⟩

theorem ordersAt_le_size (orders : Orders) (price : Nat) : ordersAt bid orders price ≤ size orders := by
  have bound := total_le (fun o => if restsAt bid price o then 1 else 0) 1 orders (by
    intro o
    split <;> omega)
  simpa [ordersAt] using bound

theorem sharesAt_le_size (orders : Orders) (price : Nat) :
    sharesAt bid orders price ≤ size orders * (2 ^ 32 - 1) := by
  apply total_le
  intro o
  have := o.shares.toNat_lt
  split <;> omega

theorem sharesAt_unoccupied (orders : Orders) (price : Nat) (none : ordersAt bid orders price = 0) :
    sharesAt bid orders price = 0 := by
  by_contra positive
  obtain ⟨ref, o, found, some⟩ := total_pos.mp (Nat.pos_of_ne_zero positive)
  have rests : restsAt bid price o = true := by
    by_contra miss
    simp [miss] at some
  have occupied := (ordersAt_pos bid orders price).mpr ⟨ref, o, found, rests⟩
  omega

theorem levelCount_le_size (orders : Orders) : levelCount bid orders ≤ size orders := by
  rw [levelCount]
  refine (List.dedup_sublist _).length_le.trans ?_
  rw [prices, List.length_map]
  refine (List.length_filter_le _ _).trans ?_
  simp [size]

end Scans

section Updates

variable (bid : Bool) {orders : Orders} {ref : UInt64} {o : Order}

theorem restsAt_iff (price : Nat) (o : Order) :
    restsAt bid price o = true ↔ o.isBid = bid ∧ price = o.price.toNat := by
  rw [restsAt, Bool.and_eq_true, beq_iff_eq, beq_iff_eq]
  exact and_congr_right fun _ => eq_comm

theorem prices_insert (absent : orders.lookup ref = none) (o : Order) :
    prices bid (orders.insert ref o) =
      if o.isBid = bid then o.price.toNat :: prices bid orders else prices bid orders := by
  rw [prices, AList.entries_insert_of_notMem (AList.lookup_eq_none.mp absent)]
  by_cases side : o.isBid = bid <;> simp [side, prices]

theorem levelCount_insert (absent : orders.lookup ref = none) (o : Order) :
    levelCount bid (orders.insert ref o) =
      if o.isBid = bid ∧ ordersAt bid orders o.price.toNat = 0 then levelCount bid orders + 1
      else levelCount bid orders := by
  rw [levelCount_card, prices_insert bid absent]
  by_cases side : o.isBid = bid
  · have member := mem_prices bid orders o.price.toNat
    by_cases fresh : ordersAt bid orders o.price.toNat = 0
    · have out : o.price.toNat ∉ (prices bid orders).toFinset := by
        simp [member, fresh]
      simp only [side, fresh, and_self, if_true, List.toFinset_cons, Finset.card_insert_of_notMem out,
        levelCount_card]
    · have inside : o.price.toNat ∈ (prices bid orders).toFinset := by
        simpa [member] using Nat.pos_of_ne_zero fresh
      simp only [side, fresh, and_false, if_true, if_false, List.toFinset_cons,
        Finset.insert_eq_of_mem inside, levelCount_card]
  · simp [side, levelCount_card]

theorem depth_insert (absent : orders.lookup ref = none) (o : Order) :
    depth bid (orders.insert ref o) =
      if o.isBid = bid then (depth bid orders).credit o.price.toNat o.shares.toNat
      else depth bid orders := by
  have counts (p : Nat) := total_insert_fresh (fun o => if restsAt bid p o then 1 else 0) o absent
  have sums (p : Nat) :=
    total_insert_fresh (fun o => if restsAt bid p o then o.shares.toNat else 0) o absent
  have levels := levelCount_insert bid absent o
  simp only [restsAt_iff] at counts sums
  by_cases side : o.isBid = bid
  · simp only [side, true_and] at counts sums levels
    rw [if_pos side]
    refine Depth.ext (funext fun p => ?_) (funext fun p => ?_) levels
    · by_cases here : p = o.price.toNat <;>
        simp [depth, Depth.credit, ordersAt, restsAt_iff, counts, here, Nat.add_comm]
    · by_cases here : p = o.price.toNat <;>
        simp [depth, Depth.credit, sharesAt, restsAt_iff, sums, here, Nat.add_comm]
  · simp only [side, false_and, if_false, Nat.zero_add] at counts sums levels
    rw [if_neg side]
    refine Depth.ext (funext fun p => ?_) (funext fun p => ?_) levels
    · simpa [depth, ordersAt, restsAt_iff] using counts p
    · simpa [depth, sharesAt, restsAt_iff] using sums p

theorem Depth.debit_credit (d : Depth) (price quantity : Nat) :
    (d.credit price quantity).debit price quantity = d := by
  refine Depth.ext (funext fun p => ?_) (funext fun p => ?_) ?_
  · by_cases here : p = price <;> simp [Depth.credit, Depth.debit, here]
  · by_cases here : p = price <;> simp [Depth.credit, Depth.debit, here]
  · by_cases fresh : d.orders price = 0 <;> simp [Depth.credit, Depth.debit, fresh]

theorem Depth.credit_shrink (d : Depth) (price quantity less : Nat) (within : less ≤ quantity) :
    (d.credit price quantity).shrink price less = d.credit price (quantity - less) := by
  refine Depth.ext rfl (funext fun p => ?_) rfl
  by_cases here : p = price
  · simp only [Depth.credit, Depth.shrink, here, if_true]
    omega
  · simp [Depth.credit, Depth.shrink, here]

theorem depth_congr {left right : Orders} (same : left.entries.Perm right.entries) :
    depth bid left = depth bid right := by
  have listed : (prices bid left).Perm (prices bid right) :=
    ((same.map _).filter _).map _
  refine Depth.ext (funext fun p => ?_) (funext fun p => ?_) ?_
  · exact (same.map _).sum_eq
  · exact (same.map _).sum_eq
  · exact (listed.dedup).length_eq

theorem reinsert_perm (found : orders.lookup ref = some o) :
    orders.entries.Perm ((orders.erase ref).insert ref o).entries := by
  rw [AList.entries_insert_of_notMem (AList.lookup_eq_none.mp (AList.lookup_erase ref orders))]
  exact entries_perm found

theorem depth_found (found : orders.lookup ref = some o) :
    depth bid orders =
      if o.isBid = bid then (depth bid (orders.erase ref)).credit o.price.toNat o.shares.toNat
      else depth bid (orders.erase ref) := by
  rw [depth_congr bid (reinsert_perm found), depth_insert bid (AList.lookup_erase ref orders)]

theorem depth_erase (found : orders.lookup ref = some o) :
    depth bid (orders.erase ref) =
      if o.isBid = bid then (depth bid orders).debit o.price.toNat o.shares.toNat
      else depth bid orders := by
  rw [depth_found bid found]
  by_cases side : o.isBid = bid <;> simp [side, Depth.debit_credit]

theorem insert_erase_entries (orders : Orders) (ref : UInt64) (o : Order) :
    (orders.insert ref o).entries = ((orders.erase ref).insert ref o).entries := by
  rw [AList.entries_insert_of_notMem (AList.lookup_eq_none.mp (AList.lookup_erase ref orders)),
    AList.entries_insert]
  rfl

theorem depth_reduce (found : orders.lookup ref = some o) (quantity : UInt32)
    (within : quantity.toNat ≤ o.shares.toNat) :
    depth bid (orders.insert ref { o with shares := o.shares - quantity }) =
      if o.isBid = bid then (depth bid orders).shrink o.price.toNat quantity.toNat
      else depth bid orders := by
  have left : (o.shares - quantity).toNat = o.shares.toNat - quantity.toNat :=
    UInt32.toNat_sub_of_le _ _ (UInt32.le_iff_toNat_le.mpr within)
  rw [depth_congr bid (List.Perm.of_eq (insert_erase_entries orders ref _)),
    depth_insert bid (AList.lookup_erase ref orders), depth_found bid found]
  by_cases side : o.isBid = bid
  · have same : Order.isBid { o with shares := o.shares - quantity } = bid := side
    rw [if_pos same, if_pos side, if_pos side, Depth.credit_shrink _ _ _ _ within, left]
  · have same : Order.isBid { o with shares := o.shares - quantity } ≠ bid := side
    rw [if_neg same, if_neg side, if_neg side]

end Updates

end ItchLob.Book
