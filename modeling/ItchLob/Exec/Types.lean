import ItchLob.Itch.Messages

set_option autoImplicit false

namespace ItchLob.Exec

open Itch

abbrev Price := UInt32
abbrev Shares := UInt32
abbrev Timestamp := UInt64
abbrev UInt128 := BitVec 128

def kMaxScheduleBins : Nat := 512
def kMaxChildOrders : Nat := 512

inductive OrderType where
  | limit
  | market
  deriving DecidableEq, Repr

-- A price of 0 is the source's sentinel for no quote on that side.
structure Bbo where
  ts : Timestamp := 0
  bidPrice : Price := 0
  bidShares : Shares := 0
  askPrice : Price := 0
  askShares : Shares := 0
  deriving DecidableEq, Repr

structure TradeTick where
  ts : Timestamp := 0
  price : Price := 0
  shares : Shares := 0
  side : Side := Side.buy
  deriving DecidableEq, Repr

structure ChildOrder where
  ts : Timestamp := 0
  side : Side := Side.buy
  type : OrderType := .limit
  price : Price := 0
  shares : Shares := 0
  deriving DecidableEq, Repr

/-- The array up to size_, which never exceeds its capacity. -/
structure ChildOrderQueue where
  orders : List ChildOrder
  capacity : orders.length ≤ kMaxChildOrders

namespace ChildOrderQueue

def empty : ChildOrderQueue := ⟨[], Nat.zero_le _⟩

def full (q : ChildOrderQueue) : Bool := q.orders.length ≥ kMaxChildOrders

def push (q : ChildOrderQueue) (o : ChildOrder) : Bool × ChildOrderQueue :=
  if room : q.orders.length < kMaxChildOrders then
    (true, ⟨q.orders ++ [o], by rw [List.length_append, List.length_singleton]; exact room⟩)
  else (false, q)

def clear (_ : ChildOrderQueue) : ChildOrderQueue := empty

theorem push_full {q : ChildOrderQueue} (full : q.full = true) (o : ChildOrder) : q.push o = (false, q) := by
  have crowded : ¬q.orders.length < kMaxChildOrders := by simpa [ChildOrderQueue.full] using full
  rw [push, dif_neg crowded]

theorem push_accepts {q : ChildOrderQueue} (room : q.full = false) (o : ChildOrder) :
    (q.push o).1 = true ∧ (q.push o).2.orders = q.orders ++ [o] := by
  have free : q.orders.length < kMaxChildOrders := by simpa [ChildOrderQueue.full] using room
  rw [push, dif_pos free]
  exact ⟨rfl, rfl⟩

end ChildOrderQueue

-- Exact integers, for sums that the code keeps in fixed widths.
def sharesOf (orders : List ChildOrder) : Nat := (orders.map fun o => o.shares.toNat).sum

@[simp]
theorem sharesOf_append (orders later : List ChildOrder) :
    sharesOf (orders ++ later) = sharesOf orders + sharesOf later := by
  simp [sharesOf]

end ItchLob.Exec
