import ItchLob.Shared.Simulation
import ItchLob.Book.Resting

set_option autoImplicit false

namespace ItchLob.Book

open Itch FiniteMap

/-- The gate sees only prices. Its state is not observable; it decides whether
an add may touch the map at all. -/
structure Gate (α : Type) where
  admits : α → Nat → Bool × α

structure Naive (α : Type) where
  orders : Orders
  gate : α

section Naive

variable {α : Type} (g : Gate α)

def Naive.add (s : Naive α) (ref : UInt64) (side : Side) (shares price : UInt32) : Bool × Naive α :=
  let passed := g.admits s.gate price.toNat
  if passed.1 then
    match s.orders.lookup ref with
    | some _ => (false, { s with gate := passed.2 })
    | none => (true, ⟨s.orders.insert ref ⟨shares, price, side⟩, passed.2⟩)
  else (false, { s with gate := passed.2 })

def Naive.reduce (s : Naive α) (ref : UInt64) (shares : UInt32) : Bool × Naive α :=
  match s.orders.lookup ref with
  | none => (false, s)
  | some o =>
    let left := o.shares - min shares o.shares
    if left = 0 then (true, { s with orders := s.orders.erase ref })
    else (true, { s with orders := s.orders.insert ref { o with shares := left } })

def Naive.remove (s : Naive α) (ref : UInt64) : Bool × Naive α :=
  match s.orders.lookup ref with
  | none => (false, s)
  | some _ => (true, { s with orders := s.orders.erase ref })

def Naive.replace (s : Naive α) (orig next : UInt64) (shares price : UInt32) : Bool × Naive α :=
  match s.orders.lookup orig with
  | none => (false, s)
  | some o => Naive.add g { s with orders := s.orders.erase orig } next o.side shares price

def Naive.call (s : Naive α) : Call → Bool × Naive α
  | .add ref side shares price => s.add g ref side shares price
  | .execute ref shares => s.reduce ref shares
  | .cancel ref shares => s.reduce ref shares
  | .remove ref => s.remove ref
  | .replace orig next shares price => s.replace g orig next shares price

theorem Naive.add_gate (s : Naive α) (ref : UInt64) (side : Side) (shares price : UInt32) :
    (s.add g ref side shares price).2.gate = (g.admits s.gate price.toNat).2 := by
  unfold Naive.add
  dsimp only
  split
  · split <;> rfl
  · rfl

theorem Naive.call_gate (s : Naive α) (c : Call) :
    (s.call g c).2.gate = s.gate ∨ ∃ price, (s.call g c).2.gate = (g.admits s.gate price).2 := by
  cases c with
  | add ref side shares price => exact .inr ⟨price.toNat, s.add_gate g ref side shares price⟩
  | execute ref shares | cancel ref shares =>
    left
    simp only [Naive.call, Naive.reduce]
    split
    · rfl
    · split <;> rfl
  | remove ref =>
    left
    simp only [Naive.call, Naive.remove]
    split <;> rfl
  | replace orig next shares price =>
    simp only [Naive.call, Naive.replace]
    split
    · exact .inl rfl
    · exact .inr ⟨price.toNat, Naive.add_gate g _ next _ shares price⟩

end Naive

/-- Both classes keep a hash-map locator beside their ladders and write remove,
reduce and replace with the same text, around their own level_sub and add. -/
structure Locator (B : Type) where
  orders : B → Orders
  setOrders : B → Orders → B
  levelSub : B → Side → UInt32 → UInt32 → Bool → B

section Shared

variable {B : Type} (L : Locator B)

def Locator.remove (b : B) (ref : UInt64) : Bool × B :=
  match (L.orders b).lookup ref with
  | none => (false, b)
  | some o =>
    (true, L.levelSub (L.setOrders b ((L.orders b).erase ref)) o.side o.price o.shares true)

def Locator.reduce (b : B) (ref : UInt64) (shares : UInt32) : Bool × B :=
  match (L.orders b).lookup ref with
  | none => (false, b)
  | some o =>
    let qty := if shares < o.shares then shares else o.shares
    let left := o.shares - qty
    let gone : Bool := left = 0
    let orders :=
      if gone then (L.orders b).erase ref
      else (L.orders b).insert ref { o with shares := left }
    (true, L.levelSub (L.setOrders b orders) o.side o.price qty gone)

def Locator.replace (add : B → UInt64 → Side → UInt32 → UInt32 → Bool × B) (b : B)
    (orig next : UInt64) (shares price : UInt32) : Bool × B :=
  match (L.orders b).lookup orig with
  | none => (false, b)
  | some o => add (L.remove b orig).2 next o.side shares price

end Shared

def isBuy (side : Side) : Bool := side = Side.buy

def onSide (d : Bool → Depth) (bid : Bool) (change : Depth → Depth) : Bool → Depth :=
  fun b => if bid = b then change (d b) else d b

abbrev depths (orders : Orders) : Bool → Depth := fun bid => depth bid orders

/-- Valid reads a book's two ladders as depths and must not look at the locator;
gate reads off the admission state. -/
structure Locator.Sound {B α : Type} (L : Locator B) (gate : B → α)
    (Valid : B → (Bool → Depth) → Prop) : Prop where
  orders_set : ∀ b orders, L.orders (L.setOrders b orders) = orders
  gate_set : ∀ b orders, gate (L.setOrders b orders) = gate b
  valid_set : ∀ b orders d, Valid b d → Valid (L.setOrders b orders) d
  orders_sub : ∀ b side price shares gone, L.orders (L.levelSub b side price shares gone) = L.orders b
  gate_sub : ∀ b side price shares gone, gate (L.levelSub b side price shares gone) = gate b
  shrink : ∀ b d side (price shares : UInt32), Valid b d →
    0 < (d (isBuy side)).orders price.toNat → shares.toNat ≤ (d (isBuy side)).shares price.toNat →
    Valid (L.levelSub b side price shares false)
      (onSide d (isBuy side) fun e => e.shrink price.toNat shares.toNat)
  debit : ∀ b d side (price shares : UInt32), Valid b d →
    0 < (d (isBuy side)).orders price.toNat → shares.toNat ≤ (d (isBuy side)).shares price.toNat →
    0 < (d (isBuy side)).levels →
    Valid (L.levelSub b side price shares true)
      (onSide d (isBuy side) fun e => e.debit price.toNat shares.toNat)

section Related

variable {B α : Type} (L : Locator B) (gate : B → α) (Valid : B → (Bool → Depth) → Prop)

structure Related (n : Nat) (b : B) (s : Naive α) : Prop where
  orders : L.orders b = s.orders
  gate : gate b = s.gate
  valid : Valid b (depths s.orders)
  few : size s.orders ≤ n

variable {L gate Valid} {n : Nat} {b : B} {s : Naive α}

theorem depths_found {orders : Orders} {ref : UInt64} {o : Order} (found : orders.lookup ref = some o) :
    0 < (depths orders (isBuy o.side)).orders o.price.toNat ∧
      o.shares.toNat ≤ (depths orders (isBuy o.side)).shares o.price.toNat ∧
      0 < (depths orders (isBuy o.side)).levels := by
  have here := depth_found o.isBid found
  rw [if_pos rfl] at here
  have occupied : 0 < ordersAt o.isBid orders o.price.toNat := by
    change 0 < (depth o.isBid orders).orders _
    rw [here]
    simp [Depth.credit]
  refine ⟨occupied, ?_, levelCount_pos o.isBid occupied⟩
  change _ ≤ (depth o.isBid orders).shares _
  rw [here]
  simp [Depth.credit]

theorem depths_erase {orders : Orders} {ref : UInt64} {o : Order} (found : orders.lookup ref = some o) :
    depths (orders.erase ref) =
      onSide (depths orders) (isBuy o.side) fun e => e.debit o.price.toNat o.shares.toNat :=
  funext fun bid => depth_erase bid found

theorem depths_reduce {orders : Orders} {ref : UInt64} {o : Order} (found : orders.lookup ref = some o)
    (quantity : UInt32) (within : quantity.toNat ≤ o.shares.toNat) :
    depths (orders.insert ref { o with shares := o.shares - quantity }) =
      onSide (depths orders) (isBuy o.side) fun e => e.shrink o.price.toNat quantity.toNat :=
  funext fun bid => depth_reduce bid found quantity within

theorem Related.remove (sound : L.Sound gate Valid) (related : Related L gate Valid n b s)
    (ref : UInt64) :
    (L.remove b ref).1 = (s.remove ref).1 ∧
      Related L gate Valid n (L.remove b ref).2 (s.remove ref).2 := by
  obtain ⟨same, gated, valid, few⟩ := related
  unfold Locator.remove Naive.remove
  rw [same]
  cases found : s.orders.lookup ref with
  | none => exact ⟨rfl, same, gated, valid, few⟩
  | some o =>
    obtain ⟨occupied, covered, counted⟩ := depths_found found
    have smaller := size_erase found
    refine ⟨rfl, ?_, ?_, ?_, ?_⟩
    · rw [sound.orders_sub, sound.orders_set]
    · rw [sound.gate_sub, sound.gate_set, gated]
    · rw [depths_erase found]
      exact sound.debit _ _ _ _ _ (sound.valid_set _ _ _ valid) occupied covered counted
    · change size (s.orders.erase ref) ≤ n
      omega

theorem clamp_eq_min (shares held : UInt32) :
    (if shares < held then shares else held) = min shares held := by
  by_cases less : shares < held
  · have le : shares ≤ held := UInt32.le_of_lt less
    rw [if_pos less]
    exact (if_pos le).symm
  · rw [if_neg less]
    by_cases le : shares ≤ held
    · have equal : shares = held := by
        rw [UInt32.lt_iff_toNat_lt] at less
        rw [UInt32.le_iff_toNat_le] at le
        exact UInt32.toNat_inj.mp (by omega)
      rw [equal]
      exact (ite_self held).symm
    · exact (if_neg le).symm

theorem min_toNat_le (shares held : UInt32) : (min shares held).toNat ≤ held.toNat := by
  by_cases le : shares ≤ held
  · rw [show min shares held = shares from if_pos le]
    exact UInt32.le_iff_toNat_le.mp le
  · rw [show min shares held = held from if_neg le]

theorem Related.reduce (sound : L.Sound gate Valid) (related : Related L gate Valid n b s)
    (ref : UInt64) (shares : UInt32) :
    (L.reduce b ref shares).1 = (s.reduce ref shares).1 ∧
      Related L gate Valid n (L.reduce b ref shares).2 (s.reduce ref shares).2 := by
  obtain ⟨same, gated, valid, few⟩ := related
  unfold Locator.reduce Naive.reduce
  rw [same]
  cases found : s.orders.lookup ref with
  | none => exact ⟨rfl, same, gated, valid, few⟩
  | some o =>
    obtain ⟨occupied, covered, counted⟩ := depths_found found
    have within := min_toNat_le shares o.shares
    have left : (o.shares - min shares o.shares).toNat = o.shares.toNat - (min shares o.shares).toNat :=
      UInt32.toNat_sub_of_le _ _ (UInt32.le_iff_toNat_le.mpr within)
    simp only [clamp_eq_min]
    by_cases gone : o.shares - min shares o.shares = 0
    · -- Nothing is left, so the clamped quantity is the whole resting size.
      have whole : min shares o.shares = o.shares := by
        rw [gone] at left
        apply UInt32.toNat_inj.mp
        simp only [UInt32.toNat_zero] at left
        omega
      have smaller := size_erase found
      rw [if_pos gone]
      simp only [gone, decide_true, if_true]
      refine ⟨trivial, ?_, ?_, ?_, ?_⟩
      · rw [sound.orders_sub, sound.orders_set]
      · rw [sound.gate_sub, sound.gate_set, gated]
      · rw [depths_erase found, whole]
        exact sound.debit _ _ _ _ _ (sound.valid_set _ _ _ valid) occupied covered counted
      · change size (s.orders.erase ref) ≤ n
        omega
    · rw [if_neg gone]
      simp only [gone, decide_false, Bool.false_eq_true, if_false]
      refine ⟨trivial, ?_, ?_, ?_, ?_⟩
      · rw [sound.orders_sub, sound.orders_set]
      · rw [sound.gate_sub, sound.gate_set, gated]
      · rw [depths_reduce found _ within]
        exact sound.shrink _ _ _ _ _ (sound.valid_set _ _ _ valid) occupied (within.trans covered)
      · change size (s.orders.insert ref _) ≤ n
        rwa [size_insert_found _ found]

theorem Related.replace (sound : L.Sound gate Valid) (g : Gate α)
    (add : B → UInt64 → Side → UInt32 → UInt32 → Bool × B)
    (adds : ∀ b' s', Related L gate Valid n b' s' → ∀ ref side shares price,
      (add b' ref side shares price).1 = (s'.add g ref side shares price).1 ∧
        Related L gate Valid (n + 1) (add b' ref side shares price).2 (s'.add g ref side shares price).2)
    (related : Related L gate Valid n b s) (orig next : UInt64) (shares price : UInt32) :
    (L.replace add b orig next shares price).1 = (s.replace g orig next shares price).1 ∧
      Related L gate Valid (n + 1) (L.replace add b orig next shares price).2
        (s.replace g orig next shares price).2 := by
  have removed := (related.remove sound orig).2
  obtain ⟨same, gated, valid, few⟩ := related
  unfold Locator.replace Naive.replace
  rw [same]
  cases found : s.orders.lookup orig with
  | none => exact ⟨rfl, same, gated, valid, few.trans (Nat.le_succ n)⟩
  | some o =>
    simp only [Naive.remove, found] at removed
    exact adds _ _ removed next o.side shares price

theorem Related.mono {m : Nat} (more : n ≤ m) (related : Related L gate Valid n b s) :
    Related L gate Valid m b s :=
  ⟨related.orders, related.gate, related.valid, related.few.trans more⟩

theorem Related.weaken (related : Related L gate Valid n b s) : Related L gate Valid (n + 1) b s :=
  related.mono (Nat.le_succ n)

end Related

end ItchLob.Book
