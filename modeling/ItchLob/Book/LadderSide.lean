import ItchLob.Book.LadderBook

set_option autoImplicit false

namespace ItchLob.Book

open Itch FiniteMap

namespace LadderSide

theorem levelAt_setIfInBounds (levels : Array Level) (i j : Nat) (l : Level) :
    levelAt (levels.setIfInBounds i l) j =
      if j = i ∧ i < levels.size then l else levelAt levels j := by
  simp only [levelAt, Array.getD_eq_getD_getElem?, Array.getElem?_setIfInBounds]
  by_cases here : i = j
  · subst here
    by_cases inside : i < levels.size <;> simp [inside]
  · simp [here, Ne.symm here]

theorem levelAt_outside {levels : Array Level} {i : Nat} (outside : levels.size ≤ i) :
    levelAt levels i = {} := by
  rw [levelAt, Array.getD_eq_getD_getElem?, Array.getElem?_eq_none outside, Option.getD_none]

theorem levelAt_replicate (n i : Nat) : levelAt (Array.replicate n {}) i = {} := by
  simp only [levelAt, Array.getD_eq_getD_getElem?, Array.getElem?_replicate]
  split <;> rfl

theorem retreat_some {levels : Array Level} {best i : Nat} (found : retreatBestBid levels best = some i) :
    i < best ∧ 0 < (levelAt levels i).orders ∧
      ∀ j, i < j → j < best → ¬ 0 < (levelAt levels j).orders := by
  induction best with
  | zero => simp [retreatBestBid] at found
  | succ best ih =>
    by_cases occupied : 0 < (levelAt levels best).orders
    · simp only [retreatBestBid, occupied, if_true, Option.some.injEq] at found
      subst found
      exact ⟨Nat.lt_succ_self _, occupied, fun j above below => by omega⟩
    · simp only [retreatBestBid, occupied, if_false] at found
      obtain ⟨less, holds, none⟩ := ih found
      refine ⟨by omega, holds, fun j above below => ?_⟩
      by_cases last : j = best
      · exact last ▸ occupied
      · exact none j above (by omega)

theorem retreat_none {levels : Array Level} {best : Nat} (missing : retreatBestBid levels best = none) :
    ∀ j, j < best → ¬ 0 < (levelAt levels j).orders := by
  induction best with
  | zero => intro j below; omega
  | succ best ih =>
    by_cases occupied : 0 < (levelAt levels best).orders
    · simp [retreatBestBid, occupied] at missing
    · simp only [retreatBestBid, occupied, if_false] at missing
      intro j below
      by_cases last : j = best
      · exact last ▸ occupied
      · exact ih missing j (by omega)

theorem advance_some {levels : Array Level} {left start i : Nat}
    (found : advanceFrom levels left start = some i) :
    start ≤ i ∧ i < start + left ∧ 0 < (levelAt levels i).orders ∧
      ∀ j, start ≤ j → j < i → ¬ 0 < (levelAt levels j).orders := by
  induction left generalizing start with
  | zero => simp [advanceFrom] at found
  | succ left ih =>
    by_cases occupied : 0 < (levelAt levels start).orders
    · simp only [advanceFrom, occupied, if_true, Option.some.injEq] at found
      subst found
      exact ⟨Nat.le_refl _, by omega, occupied, fun j above below => by omega⟩
    · simp only [advanceFrom, occupied, if_false] at found
      obtain ⟨above, below, holds, none⟩ := ih found
      refine ⟨by omega, by omega, holds, fun j above' below' => ?_⟩
      by_cases first : j = start
      · exact first ▸ occupied
      · exact none j (by omega) below'

theorem advance_none {levels : Array Level} {left start : Nat}
    (missing : advanceFrom levels left start = none) :
    ∀ j, start ≤ j → j < start + left → ¬ 0 < (levelAt levels j).orders := by
  induction left generalizing start with
  | zero => intro j above below; omega
  | succ left ih =>
    by_cases occupied : 0 < (levelAt levels start).orders
    · simp [advanceFrom, occupied] at missing
    · simp only [advanceFrom, occupied, if_false] at missing
      intro j above below
      by_cases first : j = start
      · exact first ▸ occupied
      · exact ih missing j (by omega) (by omega)

theorem copyInto_size (fresh old : Array Level) (offset count : Nat) :
    (copyInto fresh old offset count).size = fresh.size := by
  induction count with
  | zero => rfl
  | succ count ih =>
    simp only [copyInto, List.range_succ, List.foldl_append, List.foldl_cons, List.foldl_nil,
      Array.size_setIfInBounds] at ih ⊢
    exact ih

theorem copyInto_levelAt (fresh old : Array Level) (offset count j : Nat)
    (room : offset + count ≤ fresh.size) :
    levelAt (copyInto fresh old offset count) j =
      if offset ≤ j ∧ j < offset + count then levelAt old (j - offset) else levelAt fresh j := by
  induction count with
  | zero =>
    rw [if_neg (by omega)]
    rfl
  | succ count ih =>
    have before := ih (by omega)
    have size := copyInto_size fresh old offset count
    simp only [copyInto, List.range_succ, List.foldl_append, List.foldl_cons, List.foldl_nil]
      at before size ⊢
    rw [levelAt_setIfInBounds, size, before]
    by_cases last : j = count + offset
    · rw [if_pos ⟨last, by omega⟩, if_pos (by omega), last, Nat.add_sub_cancel]
    · rw [if_neg (by omega)]
      by_cases inside : offset ≤ j ∧ j < offset + count
      · rw [if_pos inside, if_pos (by omega)]
      · rw [if_neg inside, if_neg (by omega)]

/-- Index i stands for the price lo + i * tick; prices off the grid hold nothing. -/
structure Holds (lo tick n : Nat) (bid : Bool) (s : LadderSide) (d : Depth) : Prop where
  size : s.levels.size = n
  count : ∀ i, i < n → (s.level i).orders.toNat = d.orders (lo + i * tick)
  sum : ∀ i, i < n → (s.level i).shares.toNat = d.shares (lo + i * tick)
  levels : s.levelCount.toNat = d.levels
  onGrid : ∀ p, 0 < d.orders p → ∃ i, i < n ∧ p = lo + i * tick
  best : d.IsBest bid (s.bestIdx.map fun i => lo + i * tick)
  inside : ∀ i, s.bestIdx = some i → i < n

section Holds

variable {lo tick n : Nat} {bid : Bool} {s : LadderSide} {d : Depth} {i : Nat} {shares : UInt32}

theorem price_inj (lo : Nat) (positive : 0 < tick) (i j : Nat) : lo + i * tick = lo + j * tick ↔ i = j := by
  rw [Nat.add_left_cancel_iff]
  exact Nat.mul_left_inj (Nat.pos_iff_ne_zero.mp positive)

theorem price_le (lo : Nat) (positive : 0 < tick) (i j : Nat) : lo + i * tick ≤ lo + j * tick ↔ i ≤ j := by
  rw [Nat.add_le_add_iff_left]
  exact Nat.mul_le_mul_right_iff positive

theorem Holds.occupied (holds : Holds lo tick n bid s d) (inside : i < n) :
    0 < (s.level i).orders ↔ 0 < d.orders (lo + i * tick) := by
  rw [UInt32.lt_iff_toNat_lt, UInt32.toNat_zero, holds.count i inside]

theorem better_iff (lo : Nat) (positive : 0 < tick) (i j : Nat) :
    better bid i j = true ↔
      if bid then lo + j * tick < lo + i * tick else lo + i * tick < lo + j * tick := by
  have right := price_le lo positive i j
  have left := price_le lo positive j i
  cases bid <;> simp only [better, if_true, Bool.false_eq_true, if_false, decide_eq_true_eq] <;> omega

def improved (bid : Bool) (best : Option Nat) (p : Nat) : Nat :=
  match best with
  | none => p
  | some b => if (if bid then b < p else p < b) then p else b

theorem best_credit {d : Depth} {best : Option Nat} (isBest : d.IsBest bid best) (p q : Nat) :
    (d.credit p q).IsBest bid (some (improved bid best p)) := by
  have only (r : Nat) (occupied : 0 < (d.credit p q).orders r) : r = p ∨ 0 < d.orders r := by
    simp only [Depth.credit] at occupied
    split at occupied
    · exact .inl ‹_›
    · exact .inr occupied
  have kept (r : Nat) (occupied : 0 < d.orders r) : 0 < (d.credit p q).orders r := by
    simp only [Depth.credit]
    split <;> omega
  have here : 0 < (d.credit p q).orders p := by simp [Depth.credit]
  cases best with
  | none =>
    refine ⟨here, fun r occupied => ?_⟩
    rcases only r occupied with same | old
    · cases bid <;> simp [improved, same]
    · exact absurd (isBest r) (Nat.pos_iff_ne_zero.mp old)
  | some b =>
    obtain ⟨held, extreme⟩ := isBest
    by_cases improves : if bid then b < p else p < b
    · simp only [improved, improves, if_true]
      refine ⟨here, fun r occupied => ?_⟩
      rcases only r occupied with same | old
      · cases bid <;> simp [same]
      · have bound := extreme r old
        cases bid <;> simp only [if_true, Bool.false_eq_true, if_false] at improves bound ⊢ <;> omega
    · simp only [improved, improves, if_false]
      refine ⟨kept b held, fun r occupied => ?_⟩
      rcases only r occupied with same | old
      · subst same
        cases bid <;> simp only [if_true, Bool.false_eq_true, if_false] at improves ⊢ <;> omega
      · exact extreme r old

theorem Holds.written (holds : Holds lo tick n bid s d) (positive : 0 < tick) (inside : i < n) {l : Level}
    {e : Depth} (orders : l.orders.toNat = e.orders (lo + i * tick))
    (sum : l.shares.toNat = e.shares (lo + i * tick))
    (others : ∀ p, p ≠ lo + i * tick → e.orders p = d.orders p ∧ e.shares p = d.shares p) (j : Nat)
    (below : j < n) :
    (levelAt (s.levels.setIfInBounds i l) j).orders.toNat = e.orders (lo + j * tick) ∧
      (levelAt (s.levels.setIfInBounds i l) j).shares.toNat = e.shares (lo + j * tick) := by
  have bound : i < s.levels.size := by
    rw [holds.size]
    exact inside
  rw [levelAt_setIfInBounds]
  by_cases here : j = i
  · rw [if_pos ⟨here, bound⟩, here]
    exact ⟨orders, sum⟩
  · obtain ⟨sameOrders, sameShares⟩ := others (lo + j * tick) fun same =>
      here ((price_inj lo positive j i).mp same)
    rw [if_neg fun both => here both.1, sameOrders, sameShares]
    exact ⟨holds.count j below, holds.sum j below⟩

theorem Holds.add (holds : Holds lo tick n bid s d) (positive : 0 < tick) (inside : i < n)
    (count : d.orders (lo + i * tick) + 1 < 2 ^ 32)
    (sum : d.shares (lo + i * tick) + shares.toNat < 2 ^ 64) (few : d.levels + 1 < 2 ^ 64) :
    Holds lo tick n bid (s.add bid i shares) (d.credit (lo + i * tick) shares.toNat) := by
  have added : ((s.level i).orders + 1).toNat = d.orders (lo + i * tick) + 1 := by
    rw [UInt32.toNat_add, holds.count i inside]
    exact Nat.mod_eq_of_lt count
  have summed : ((s.level i).shares + shares.toUInt64).toNat =
      d.shares (lo + i * tick) + shares.toNat := by
    rw [UInt64.toNat_add, holds.sum i inside, UInt32.toNat_toUInt64]
    exact Nat.mod_eq_of_lt sum
  have fresh : (s.level i).orders = 0 ↔ d.orders (lo + i * tick) = 0 := by
    rw [← holds.count i inside, ← UInt32.toNat_inj, UInt32.toNat_zero]
  have cells := holds.written positive inside (e := d.credit (lo + i * tick) shares.toNat)
    (l := { shares := (s.level i).shares + shares.toUInt64, orders := (s.level i).orders + 1 })
    (by simpa [Depth.credit] using added) (by simpa [Depth.credit] using summed)
    (fun p apart => by simp [Depth.credit, apart])
  refine ⟨by simp [LadderSide.add, holds.size], fun j below => (cells j below).1,
    fun j below => (cells j below).2, ?_, ?_, ?_, ?_⟩
  · simp only [LadderSide.add, Depth.credit, fresh]
    by_cases empty : d.orders (lo + i * tick) = 0
    · rw [if_pos empty, if_pos empty, UInt64.toNat_add, holds.levels]
      exact Nat.mod_eq_of_lt few
    · rw [if_neg empty, if_neg empty, holds.levels]
  · intro p occupied
    simp only [Depth.credit] at occupied
    by_cases here : p = lo + i * tick
    · exact ⟨i, inside, here⟩
    · rw [if_neg here] at occupied
      exact holds.onGrid p occupied
  · have after := best_credit holds.best (lo + i * tick) shares.toNat
    cases old : s.bestIdx with
    | none =>
      rw [old] at after
      simp only [LadderSide.add, old]
      exact after
    | some b =>
      rw [old, Option.map_some, improved] at after
      simp only [LadderSide.add, old]
      by_cases wins : better bid i b = true
      · rw [if_pos ((better_iff lo positive i b).mp wins)] at after
        rw [if_pos wins]
        exact after
      · rw [if_neg fun h => wins ((better_iff lo positive i b).mpr h)] at after
        rw [if_neg wins]
        exact after
  · intro j chosen
    simp only [LadderSide.add] at chosen
    cases old : s.bestIdx with
    | none =>
      rw [old] at chosen
      exact Option.some.inj chosen ▸ inside
    | some b =>
      rw [old] at chosen
      simp only at chosen
      split at chosen
      · exact Option.some.inj chosen ▸ inside
      · exact Option.some.inj chosen ▸ holds.inside b old

theorem Holds.shrink (holds : Holds lo tick n bid s d) (positive : 0 < tick) (inside : i < n)
    (occupied : 0 < d.orders (lo + i * tick)) (within : shares.toNat ≤ d.shares (lo + i * tick)) :
    Holds lo tick n bid (s.sub bid n i shares false) (d.shrink (lo + i * tick) shares.toNat) := by
  have left := clamp_sub (s.level i) shares (by rw [holds.sum i inside]; exact within)
  have stays : (s.level i).orders ≠ 0 := by
    intro zero
    have count := holds.count i inside
    rw [zero, UInt32.toNat_zero] at count
    omega
  rw [holds.sum i inside] at left
  simp only [LadderSide.sub, Bool.false_and, Bool.false_eq_true, if_false, stays]
  generalize (s.level i).shares - _ = rest at left ⊢
  have cells := holds.written positive inside (e := d.shrink (lo + i * tick) shares.toNat)
    (l := ⟨rest, (s.level i).orders⟩) (holds.count i inside) (by simpa [Depth.shrink] using left)
    (fun p apart => by simp [Depth.shrink, apart])
  exact ⟨by simp [holds.size], fun j below => (cells j below).1, fun j below => (cells j below).2,
    holds.levels, holds.onGrid, holds.best, holds.inside⟩

theorem rescan_isBest {e : Depth} {levels : Array Level} (positive : 0 < tick) (inside : i < n)
    (grid : ∀ p, 0 < e.orders p → ∃ j, j < n ∧ p = lo + j * tick)
    (shown : ∀ j, j < n → (0 < (levelAt levels j).orders ↔ 0 < e.orders (lo + j * tick)))
    (empty : e.orders (lo + i * tick) = 0)
    (extreme : ∀ q, 0 < e.orders q → if bid then q ≤ lo + i * tick else lo + i * tick ≤ q) :
    let next := if bid then retreatBestBid levels i else advanceBestAsk levels n i
    e.IsBest bid (next.map fun j => lo + j * tick) ∧ ∀ j, next = some j → j < n := by
  have apart (j : Nat) (held : 0 < e.orders (lo + j * tick)) : j ≠ i := by
    intro same
    rw [same] at held
    omega
  cases bid with
  | true =>
    have worse (j : Nat) (held : 0 < e.orders (lo + j * tick)) : j < i := by
      have bound := (price_le lo positive j i).mp (by simpa using extreme _ held)
      have := apart j held
      omega
    simp only [if_true]
    cases found : retreatBestBid levels i with
    | none =>
      refine ⟨fun p => ?_, by simp⟩
      by_contra held
      obtain ⟨j, below, rfl⟩ := grid p (Nat.pos_of_ne_zero held)
      exact retreat_none found j (worse j (Nat.pos_of_ne_zero held))
        ((shown j below).mpr (Nat.pos_of_ne_zero held))
    | some k =>
      obtain ⟨less, occupied, none⟩ := retreat_some found
      refine ⟨⟨(shown k (by omega)).mp occupied, fun p held => ?_⟩, ?_⟩
      · obtain ⟨j, below, rfl⟩ := grid p held
        simp only [if_true]
        rw [price_le lo positive]
        by_contra above
        exact none j (by omega) (worse j held) ((shown j below).mpr held)
      · rintro j ⟨⟩
        omega
  | false =>
    have worse (j : Nat) (held : 0 < e.orders (lo + j * tick)) : i < j := by
      have bound := (price_le lo positive i j).mp (by simpa using extreme _ held)
      have := apart j held
      omega
    simp only [Bool.false_eq_true, if_false]
    cases found : advanceBestAsk levels n i with
    | none =>
      refine ⟨fun p => ?_, by simp⟩
      by_contra held
      obtain ⟨j, below, rfl⟩ := grid p (Nat.pos_of_ne_zero held)
      have after := worse j (Nat.pos_of_ne_zero held)
      exact advance_none found j after (by omega) ((shown j below).mpr (Nat.pos_of_ne_zero held))
    | some k =>
      obtain ⟨after, below, occupied, none⟩ := advance_some found
      refine ⟨⟨(shown k (by omega)).mp occupied, fun p held => ?_⟩, ?_⟩
      · obtain ⟨j, within, rfl⟩ := grid p held
        simp only [Bool.false_eq_true, if_false]
        rw [price_le lo positive]
        by_contra above
        exact none j (worse j held) (by omega) ((shown j within).mpr held)
      · rintro j ⟨⟩
        omega

theorem best_debit {d : Depth} {best : Option Nat} (isBest : d.IsBest bid best) (p q : Nat)
    (kept : d.orders p ≠ 1 ∨ best ≠ some p) (occupied : 0 < d.orders p) :
    (d.debit p q).IsBest bid best := by
  have fewer (r : Nat) (held : 0 < (d.debit p q).orders r) : 0 < d.orders r := by
    simp only [Depth.debit] at held
    split at held <;> omega
  cases best with
  | none => exact absurd (isBest p) (Nat.pos_iff_ne_zero.mp occupied)
  | some b =>
    refine ⟨?_, fun r held => isBest.2 r (fewer r held)⟩
    have held := isBest.1
    simp only [Depth.debit]
    split
    · rename_i same
      subst same
      rcases kept with more | other
      · omega
      · exact absurd rfl other
    · exact held

theorem Holds.debit (holds : Holds lo tick n bid s d) (positive : 0 < tick) (inside : i < n)
    (occupied : 0 < d.orders (lo + i * tick)) (within : shares.toNat ≤ d.shares (lo + i * tick))
    (counted : 0 < d.levels) :
    Holds lo tick n bid (s.sub bid n i shares true) (d.debit (lo + i * tick) shares.toNat) := by
  have left := clamp_sub (s.level i) shares (by rw [holds.sum i inside]; exact within)
  have nonempty : 0 < (s.level i).orders := (holds.occupied inside).mpr occupied
  have fewer : ((s.level i).orders - 1).toNat = d.orders (lo + i * tick) - 1 := by
    have count := holds.count i inside
    rw [UInt32.toNat_sub_of_le _ _ (by rw [UInt32.le_iff_toNat_le, UInt32.toNat_one]; omega), count]
    rfl
  have emptied : (s.level i).orders - 1 = 0 ↔ d.orders (lo + i * tick) = 1 := by
    rw [← UInt32.toNat_inj, fewer, UInt32.toNat_zero]
    omega
  simp only [LadderSide.sub, nonempty, decide_true, Bool.and_true, if_true, emptied]
  generalize changed : Level.mk _ ((s.level i).orders - 1) = l
  have lOrders : l.orders.toNat = d.orders (lo + i * tick) - 1 := by
    rw [← changed]
    exact fewer
  have lShares : l.shares.toNat = d.shares (lo + i * tick) - shares.toNat := by
    rw [← changed, ← holds.sum i inside]
    exact left
  have cells := holds.written positive inside (e := d.debit (lo + i * tick) shares.toNat) (l := l)
    (by simpa [Depth.debit] using lOrders) (by simpa [Depth.debit] using lShares)
    (fun p apart => by simp [Depth.debit, apart])
  have counts (j : Nat) (below : j < n) := (cells j below).1
  have sums (j : Nat) (below : j < n) := (cells j below).2
  have grid (p : Nat) (held : 0 < (d.debit (lo + i * tick) shares.toNat).orders p) :
      ∃ j, j < n ∧ p = lo + j * tick := by
    apply holds.onGrid p
    simp only [Depth.debit] at held
    split at held <;> omega
  have shown (j : Nat) (below : j < n) :
      0 < (levelAt (s.levels.setIfInBounds i l) j).orders ↔
        0 < (d.debit (lo + i * tick) shares.toNat).orders (lo + j * tick) := by
    rw [UInt32.lt_iff_toNat_lt, UInt32.toNat_zero, counts j below]
  have size : (s.levels.setIfInBounds i l).size = n := by simp [holds.size]
  by_cases last : d.orders (lo + i * tick) = 1
  · have levels : (s.levelCount - 1).toNat = (d.debit (lo + i * tick) shares.toNat).levels := by
      have before := holds.levels
      rw [UInt64.toNat_sub_of_le _ _ (by rw [UInt64.le_iff_toNat_le, UInt64.toNat_one]; omega)]
      simp only [Depth.debit, last, if_true, UInt64.toNat_one, before]
    rw [if_pos last]
    by_cases top : s.bestIdx = some i
    · have held := holds.best
      rw [top] at held
      have next := rescan_isBest positive inside grid shown
        (by simp [Depth.debit, last]) (fun q occupied => held.2 q (by
          simp only [Depth.debit] at occupied
          split at occupied <;> omega))
      simp only [top, if_true]
      exact ⟨size, counts, sums, levels, grid, next.1, next.2⟩
    · have keeps := best_debit holds.best (lo + i * tick) shares.toNat (.inr (by
        intro same
        obtain ⟨j, chosen, equal⟩ := Option.map_eq_some_iff.mp same
        exact top (by rw [chosen, (price_inj lo positive j i).mp equal]))) occupied
      simp only [top, if_false]
      exact ⟨size, counts, sums, levels, grid, keeps, holds.inside⟩
  · have levels : s.levelCount.toNat = (d.debit (lo + i * tick) shares.toNat).levels := by
      simp only [Depth.debit, last, if_false, holds.levels]
    have keeps := best_debit holds.best (lo + i * tick) shares.toNat (.inl last) occupied
    rw [if_neg last]
    exact ⟨size, counts, sums, levels, grid, keeps, holds.inside⟩

theorem Holds.resize (holds : Holds lo tick n bid s d) (positive : 0 < tick)
    (empty : ∀ p, d.orders p = 0 → d.shares p = 0) {newLo offset m : Nat}
    (aligned : lo = newLo + offset * tick) (room : offset + n ≤ m) :
    Holds newLo tick m bid (s.resize offset n m) d := by
  have shifted (i : Nat) : newLo + (i + offset) * tick = lo + i * tick := by
    rw [aligned, Nat.add_mul]
    omega
  have fresh : (Array.replicate m ({} : Level)).size = m := by simp
  have read (j : Nat) : (s.resize offset n m).level j =
      if offset ≤ j ∧ j < offset + n then s.level (j - offset) else {} := by
    rw [level, LadderSide.resize, copyInto_levelAt _ _ _ _ _ (by omega)]
    split
    · rfl
    · simp only [levelAt, Array.getD_eq_getD_getElem?, Array.getElem?_replicate]
      split <;> rfl
  have within (j : Nat) (old : offset ≤ j ∧ j < offset + n) :
      newLo + j * tick = lo + (j - offset) * tick := by
    rw [← shifted, Nat.sub_add_cancel old.1]
  have outside (j : Nat) (out : ¬ (offset ≤ j ∧ j < offset + n)) : d.orders (newLo + j * tick) = 0 := by
    by_contra held
    obtain ⟨i, below, equal⟩ := holds.onGrid _ (Nat.pos_of_ne_zero held)
    rw [← shifted, price_inj newLo positive] at equal
    omega
  refine ⟨by simp [LadderSide.resize, copyInto_size], ?_, ?_, holds.levels, ?_, ?_, ?_⟩
  · intro j below
    rw [read]
    by_cases old : offset ≤ j ∧ j < offset + n
    · rw [if_pos old, within j old, holds.count _ (by omega)]
    · rw [if_neg old, outside j old]
      rfl
  · intro j below
    rw [read]
    by_cases old : offset ≤ j ∧ j < offset + n
    · rw [if_pos old, within j old, holds.sum _ (by omega)]
    · rw [if_neg old, empty _ (outside j old)]
      rfl
  · intro p occupied
    obtain ⟨i, below, rfl⟩ := holds.onGrid p occupied
    exact ⟨i + offset, by omega, (shifted i).symm⟩
  · have held := holds.best
    rw [LadderSide.resize, Option.map_map]
    simpa only [Function.comp_def, shifted] using held
  · intro j chosen
    obtain ⟨i, old, rfl⟩ := Option.map_eq_some_iff.mp chosen
    have := holds.inside i old
    omega

end Holds

end LadderSide

end ItchLob.Book
