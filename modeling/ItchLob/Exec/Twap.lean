import ItchLob.Exec.Types

set_option autoImplicit false

namespace ItchLob.Exec

open Itch

structure TwapParams where
  side : Side := Side.buy
  totalShares : Shares := 0
  startTs : Timestamp := 0
  endTs : Timestamp := 0
  binNs : Timestamp := 1
  childType : OrderType := .limit
  limitPrice : Price := 0

-- Both schedulers size their schedule this way, in wrapping 64-bit arithmetic.
def TwapParams.binCount (p : TwapParams) : Nat :=
  ((p.endTs - p.startTs + p.binNs - 1) / p.binNs).toNat

/-- `schedule` holds the array's first bin_count_ entries; the others stay 0 and are never read. -/
structure Twap where
  params : TwapParams
  schedule : List Shares
  binCount : Nat
  nextBin : Nat := 0
  queue : ChildOrderQueue := .empty

namespace Twap

def split (totalShares : Shares) (binCount : Nat) : List Shares :=
  let base := totalShares / UInt32.ofNat binCount
  let remainder := totalShares % UInt32.ofNat binCount
  (List.range binCount).map fun i => base + if i < remainder.toNat then 1 else 0

-- An error is the text of the std::invalid_argument the constructor throws.
def construct (params : TwapParams) : Except String Twap :=
  if params.endTs ≤ params.startTs then .error "Twap: start_ts must be < end_ts"
  else if params.binNs = 0 then .error "Twap: bin_ns must be > 0"
  else if params.binCount = 0 ∨ kMaxScheduleBins < params.binCount then
    .error "Twap: bin_count out of range for kMaxScheduleBins"
  else .ok
    { params
      schedule := split params.totalShares params.binCount
      binCount := params.binCount }

theorem construct_ok {params : TwapParams} {t : Twap} (built : construct params = .ok t) :
    t = { params, schedule := split params.totalShares params.binCount, binCount := params.binCount } ∧
      0 < params.binCount ∧ params.binCount ≤ kMaxScheduleBins := by
  unfold construct at built
  split at built
  · cases built
  · split at built
    · cases built
    · split at built
      · cases built
      next range =>
        cases built
        refine ⟨rfl, ?_, ?_⟩ <;> omega

section Split

variable {n : Nat} (positive : 0 < n) (small : n ≤ kMaxScheduleBins) (total : Shares)

include small in
theorem binCount_toNat : (UInt32.ofNat n).toNat = n :=
  UInt32.toNat_ofNat_of_lt' (lt_of_le_of_lt small (by decide))

include positive small in
theorem split_entry {i : Nat} (inside : i < n) :
    ((split total n).getD i 0).toNat =
      total.toNat / n + if i < total.toNat % n then 1 else 0 := by
  have count := binCount_toNat small
  have quotient : (total / UInt32.ofNat n).toNat = total.toNat / n := by rw [UInt32.toNat_div, count]
  have remainder : (total % UInt32.ofNat n).toNat = total.toNat % n := by rw [UInt32.toNat_mod, count]
  have whole := Nat.div_add_mod total.toNat n
  have least : total.toNat / n ≤ n * (total.toNat / n) := Nat.le_mul_of_pos_left _ positive
  have top := total.toNat_lt
  rw [split, List.getD_eq_getElem?_getD, List.getElem?_map, List.getElem?_range inside, Option.map_some,
    Option.getD_some, UInt32.toNat_add, quotient, remainder]
  by_cases early : i < total.toNat % n
  · rw [if_pos early, if_pos early]
    exact Nat.mod_eq_of_lt (by change total.toNat / n + 1 < _; omega)
  · rw [if_neg early, if_neg early]
    exact Nat.mod_eq_of_lt (by change total.toNat / n + 0 < _; omega)

include positive small in
theorem split_toNat :
    (split total n).map UInt32.toNat =
      (List.range n).map fun i => total.toNat / n + if i < total.toNat % n then 1 else 0 := by
  refine List.ext_getElem (by simp [split]) fun i left right => ?_
  have inside : i < n := by simpa [split] using left
  have entry := split_entry positive small total inside
  rw [List.getD_eq_getElem _ _ (by simpa [split] using inside)] at entry
  rw [List.getElem_map, List.getElem_map, List.getElem_range, entry]

theorem sum_range_split (q r m : Nat) :
    ((List.range m).map fun i => q + if i < r then 1 else 0).sum = m * q + min m r := by
  induction m with
  | zero => simp
  | succ m ih =>
    rw [List.range_succ, List.map_append, List.sum_append, ih, List.map_singleton, List.sum_singleton,
      Nat.succ_mul]
    split_ifs <;> omega

include positive small in
theorem split_sum : ((split total n).map UInt32.toNat).sum = total.toNat := by
  have left := Nat.mod_lt total.toNat positive
  rw [split_toNat positive small, sum_range_split, Nat.min_eq_right (Nat.le_of_lt left)]
  exact Nat.div_add_mod _ _

end Split

end Twap

end ItchLob.Exec
