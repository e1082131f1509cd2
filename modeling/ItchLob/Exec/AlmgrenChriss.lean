import Mathlib.Data.Rat.Floor
import Mathlib.Tactic.FieldSimp
import Mathlib.Tactic.Ring
import ItchLob.Exec.Twap

set_option autoImplicit false

namespace ItchLob.Exec

-- Doubles are rationals throughout, so every conversion and quotient is exact.
structure AlmgrenChrissParams extends TwapParams where
  riskAversion : ℚ := 0
  volatility : ℚ := 0
  impactCoefficient : ℚ := 1

/-- The two transcendental functions the trajectory needs. -/
structure Libm where
  acosh : ℚ → ℚ
  sinh : ℚ → ℚ

structure AlmgrenChriss where
  params : AlmgrenChrissParams
  schedule : List Shares
  binCount : Nat
  nextBin : Nat := 0
  queue : ChildOrderQueue := .empty

namespace AlmgrenChriss

def kMinKappaHorizon : ℚ := 1 / 1000000
def kMaxKappaHorizon : ℚ := 50

def kappa (lib : Libm) (params : AlmgrenChrissParams) (tau horizon : ℚ) : ℚ :=
  let kappa :=
    if 0 < params.riskAversion then
      lib.acosh (1 + params.riskAversion * params.volatility * params.volatility * tau * tau /
        (2 * params.impactCoefficient)) / tau
    else 0
  if kMaxKappaHorizon < kappa * horizon then kMaxKappaHorizon / horizon else kappa

def sharesToTrade (lib : Libm) (params : AlmgrenChrissParams) : List ℚ :=
  let n := params.binCount
  let tau : ℚ := params.binNs.toNat
  let horizon := tau * n
  let kappa := kappa lib params tau horizon
  let total : ℚ := params.totalShares.toNat
  if kappa * horizon < kMinKappaHorizon then List.replicate n (total / n)
  else
    let denom := lib.sinh (kappa * horizon)
    -- The accumulator is the trades so far and remaining_prev.
    ((List.range n).foldl (fun (acc : List ℚ × ℚ) j =>
      let remaining := total * lib.sinh (kappa * (horizon - (j + 1 : Nat) * tau)) / denom
      (acc.1 ++ [acc.2 - remaining], remaining)) ([], total)).1

-- std::llround: to the nearest integer, halfway cases away from zero.
def llround (x : ℚ) : ℤ := if 0 ≤ x then ⌊x + 1 / 2⌋ else -⌊-x + 1 / 2⌋

def roundedSum (trades : List ℚ) : ℤ := (trades.map llround).sum

def rounded (trades : List ℚ) : List Shares := trades.map fun x => UInt32.ofInt (llround x)

def adjustedLast (totalShares : Shares) (trades : List ℚ) : ℤ :=
  ((rounded trades).getD (trades.length - 1) 0).toNat + (totalShares.toNat - roundedSum trades)

def clamped (adjusted : ℤ) : ℤ := if adjusted < 0 then 0 else adjusted

def integerSchedule (totalShares : Shares) (trades : List ℚ) : List Shares :=
  (rounded trades).set (trades.length - 1) (UInt32.ofInt (clamped (adjustedLast totalShares trades)))

def construct (lib : Libm) (params : AlmgrenChrissParams) : Except String AlmgrenChriss :=
  if params.endTs ≤ params.startTs then .error "AlmgrenChriss: start_ts must be < end_ts"
  else if params.binNs = 0 then .error "AlmgrenChriss: bin_ns must be > 0"
  else if params.riskAversion < 0 then .error "AlmgrenChriss: risk_aversion must be >= 0"
  else if params.volatility < 0 then .error "AlmgrenChriss: volatility must be >= 0"
  else if params.impactCoefficient ≤ 0 then .error "AlmgrenChriss: impact_coefficient must be > 0"
  else if params.binCount = 0 ∨ kMaxScheduleBins < params.binCount then
    .error "AlmgrenChriss: bin_count out of range for kMaxScheduleBins"
  else .ok
    { params
      schedule := integerSchedule params.totalShares (sharesToTrade lib params)
      binCount := params.binCount }

theorem construct_ok {lib : Libm} {params : AlmgrenChrissParams} {ac : AlmgrenChriss}
    (built : construct lib params = .ok ac) :
    ac.schedule = integerSchedule params.totalShares (sharesToTrade lib params) ∧
      ac.binCount = params.binCount ∧ 0 < params.binCount ∧ params.binCount ≤ kMaxScheduleBins := by
  unfold construct at built
  iterate 6
    split at built
    · cases built
  next range =>
    cases built
    refine ⟨rfl, rfl, ?_, ?_⟩ <;> omega

section Uniform

variable {lib : Libm} {params : AlmgrenChrissParams} {n : Nat}

def evenly (total : Shares) (n : Nat) : List ℚ := List.replicate n ((total.toNat : ℚ) / n)

theorem sharesToTrade_neutral (neutral : params.riskAversion = 0) :
    sharesToTrade lib params = evenly params.totalShares params.binCount := by
  have still (tau horizon : ℚ) : kappa lib params tau horizon = 0 := by
    simp [kappa, neutral, kMaxKappaHorizon]
  simp only [sharesToTrade, still, zero_mul]
  exact if_pos (by norm_num [kMinKappaHorizon])

def uniformShare (t n : Nat) : Nat := if 2 * (t % n) < n then t / n else t / n + 1

theorem llround_ratio (t : Nat) (positive : 0 < n) : llround ((t : ℚ) / n) = uniformShare t n := by
  have nonneg : (0 : ℚ) ≤ t / n := by positivity
  have shifted : (t : ℚ) / n + 1 / 2 = ((2 * t + n : Nat) : ℚ) / ((2 * n : Nat) : ℚ) := by
    have whole : (n : ℚ) ≠ 0 := by exact_mod_cast positive.ne'
    push_cast
    field_simp
  have whole : 2 * t + n = 2 * (t % n) + n + 2 * n * (t / n) := by
    have parts := Nat.div_add_mod t n
    have twice : 2 * n * (t / n) = 2 * (n * (t / n)) := Nat.mul_assoc 2 n (t / n)
    omega
  have below := Nat.mod_lt t positive
  rw [llround, if_pos nonneg, shifted, Rat.floor_natCast_div_natCast, ← Int.natCast_div, whole,
    Nat.add_mul_div_left _ _ (by omega), uniformShare]
  by_cases down : 2 * (t % n) < n
  · rw [if_pos down, Nat.div_eq_of_lt (by omega), Nat.zero_add]
  · rw [if_neg down, Nat.div_eq_of_lt_le (k := 1) (by omega) (by omega), Nat.add_comm]

theorem uniformShare_le (t : Nat) (positive : 0 < n) : uniformShare t n ≤ t := by
  have parts := Nat.div_add_mod t n
  have least : t / n ≤ n * (t / n) := Nat.le_mul_of_pos_left _ positive
  unfold uniformShare
  split <;> omega

theorem pred_mul_add (k : Nat) (positive : 0 < n) : (n - 1) * k + k = n * k := by
  rw [← Nat.succ_mul, Nat.succ_eq_add_one, Nat.sub_add_cancel positive]

theorem ofInt_toNat {k : Nat} (small : k < 2 ^ 32) : (UInt32.ofInt k).toNat = k := by
  have whole : Int.toNat ((k : ℤ) % 2 ^ 32) = k := by omega
  rw [UInt32.ofInt, whole]
  exact UInt32.toNat_ofNat_of_lt' small

section Even

variable (positive : 0 < n) (total : Shares)

include positive in
theorem rounded_evenly :
    rounded (evenly total n) = List.replicate n (UInt32.ofInt (uniformShare total.toNat n)) := by
  rw [rounded, evenly, List.map_replicate, llround_ratio _ positive]

include positive in
theorem entry_toNat : (UInt32.ofInt (uniformShare total.toNat n)).toNat = uniformShare total.toNat n := by
  have top := total.toNat_lt
  have share := uniformShare_le total.toNat positive
  exact ofInt_toNat (by omega)

include positive in
theorem adjustedLast_evenly :
    adjustedLast total (evenly total n) = total.toNat - ((n - 1) * uniformShare total.toNat n : Nat) := by
  have sum : roundedSum (evenly total n) = n * uniformShare total.toNat n := by
    rw [roundedSum, evenly, List.map_replicate, llround_ratio _ positive, List.sum_replicate, nsmul_eq_mul]
  have whole : (n : ℤ) * uniformShare total.toNat n =
      ((n - 1) * uniformShare total.toNat n : Nat) + uniformShare total.toNat n := by
    rw [← Nat.cast_mul, ← Nat.cast_add, pred_mul_add _ positive]
  have last : (rounded (evenly total n)).getD ((evenly total n).length - 1) 0 =
      UInt32.ofInt (uniformShare total.toNat n) := by
    rw [rounded_evenly positive, List.getD_eq_getElem?_getD, List.getElem?_replicate, evenly,
      List.length_replicate, if_pos (by omega), Option.getD_some]
  rw [adjustedLast, last, entry_toNat positive, sum, whole]
  omega

include positive in
-- The last bin is what is left over, clamped at zero as truncated subtraction is.
theorem integerSchedule_evenly :
    (integerSchedule total (evenly total n)).map UInt32.toNat =
      List.replicate (n - 1) (uniformShare total.toNat n) ++
        [total.toNat - (n - 1) * uniformShare total.toNat n] := by
  have top := total.toNat_lt
  have left : clamped (adjustedLast total (evenly total n)) =
      (total.toNat - (n - 1) * uniformShare total.toNat n : Nat) := by
    rw [adjustedLast_evenly positive, clamped]
    split <;> omega
  have placed (x y : Shares) :
      (List.replicate n x).set (n - 1) y = List.replicate (n - 1) x ++ [y] := by
    obtain ⟨k, rfl⟩ := Nat.exists_eq_add_of_lt positive
    rw [Nat.zero_add, Nat.add_sub_cancel, List.replicate_succ', List.set_append_right _ _ (by simp),
      List.length_replicate, Nat.sub_self]
    rfl
  rw [integerSchedule, left, rounded_evenly positive, evenly, List.length_replicate, placed,
    List.map_append, List.map_replicate, List.map_singleton, entry_toNat positive, ofInt_toNat (by omega)]

include positive in
theorem evenly_entry {i : Nat} (inside : i < n) :
    ((integerSchedule total (evenly total n)).getD i 0).toNat =
      if i = n - 1 then total.toNat - (n - 1) * uniformShare total.toNat n
      else uniformShare total.toNat n := by
  have entries := integerSchedule_evenly positive total
  have read : ((integerSchedule total (evenly total n)).getD i 0).toNat =
      ((integerSchedule total (evenly total n)).map UInt32.toNat).getD i 0 :=
    (List.getD_map _ 0 UInt32.toNat).symm
  rw [read, entries, List.getD_eq_getElem?_getD, List.getElem?_append, List.length_replicate]
  by_cases last : i = n - 1
  · simp [last]
  · rw [if_pos (by omega), if_neg last, List.getElem?_replicate, if_pos (by omega), Option.getD_some]

end Even

-- Rounding each bin up must not spend more than the total before the last bin.
theorem uniformShare_affordable (t : Nat) (positive : 0 < n) :
    (n - 1) * uniformShare t n ≤ t ↔ 2 * (t % n) < n ∨ n ≤ t / n + t % n + 1 := by
  have parts := Nat.div_add_mod t n
  have fewer := pred_mul_add (t / n) positive
  unfold uniformShare
  generalize t / n = q at parts fewer ⊢
  generalize t % n = m at parts ⊢
  by_cases down : 2 * m < n
  · rw [if_pos down]
    omega
  · rw [if_neg down, Nat.mul_succ]
    omega

/-- With no risk aversion the integer schedule is exact, and its clamp idle,
precisely when rounding the even split up leaves something for the last bin. -/
theorem neutral_schedule_exact_iff (lib : Libm) (params : AlmgrenChrissParams) (ac : AlmgrenChriss)
    (neutral : params.riskAversion = 0) (built : construct lib params = .ok ac) :
    ((ac.schedule.map UInt32.toNat).sum = params.totalShares.toNat ∧
      clamped (adjustedLast params.totalShares (sharesToTrade lib params)) =
        adjustedLast params.totalShares (sharesToTrade lib params)) ↔
    2 * (params.totalShares.toNat % params.binCount) < params.binCount ∨
      params.binCount ≤
        params.totalShares.toNat / params.binCount + params.totalShares.toNat % params.binCount + 1 := by
  obtain ⟨schedule, -, positive, -⟩ := construct_ok built
  rw [← uniformShare_affordable _ positive, schedule, sharesToTrade_neutral neutral,
    integerSchedule_evenly positive, adjustedLast_evenly positive, List.sum_append, List.sum_replicate,
    List.sum_singleton, smul_eq_mul, clamped]
  constructor
  · rintro ⟨sum, -⟩
    omega
  · intro affordable
    rw [if_neg (by omega)]
    omega

-- One bin per nanosecond from zero.
def sliced (total : Shares) (n : Nat) : AlmgrenChrissParams :=
  { totalShares := total, endTs := UInt64.ofNat n }

def still : Libm := ⟨fun _ => 0, fun _ => 0⟩

theorem neutral_schedule_exact_four :
    ∃ ac, construct still (sliced 7 4) = .ok ac ∧ (ac.schedule.map UInt32.toNat).sum = 7 := by
  obtain ⟨ac, built⟩ : ∃ ac, construct still (sliced 7 4) = .ok ac := ⟨_, rfl⟩
  have exact := (neutral_schedule_exact_iff still (sliced 7 4) ac rfl built).mpr (by decide)
  exact ⟨ac, built, exact.1⟩

-- Three shares over five bins: each bin rounds up to one share, so four are spent.
theorem neutral_schedule_overtrades :
    ∃ ac, construct still (sliced 3 5) = .ok ac ∧ (sliced 3 5).riskAversion = 0 ∧ ac.binCount = 5 ∧
      (ac.schedule.map UInt32.toNat).sum = 4 ∧
      adjustedLast 3 (sharesToTrade still (sliced 3 5)) = -1 ∧ clamped (-1) = 0 := by
  refine ⟨_, rfl, rfl, by decide, by decide +kernel, by decide +kernel, by decide⟩

theorem leftover_near_iff (t : Nat) (positive : 0 < n) :
    |((t - (n - 1) * uniformShare t n : Nat) : ℤ) - (t / n : Nat)| ≤ 1 ↔
      (2 * (t % n) < n ∧ t % n ≤ 1) ∨ (n ≤ 2 * (t % n) ∧ (n ≤ t % n + 2 ∨ t / n ≤ 1)) := by
  have below := Nat.mod_lt t positive
  have parts := Nat.div_add_mod t n
  have fewer := pred_mul_add (t / n) positive
  rw [abs_le]
  unfold uniformShare
  generalize t / n = q at parts fewer ⊢
  generalize t % n = m at below parts ⊢
  by_cases down : 2 * m < n
  · rw [if_pos down]
    omega
  · rw [if_neg down, Nat.mul_succ]
    omega

/-- With no risk aversion the schedule stays within one share of Twap's in every
bin precisely when the last bin's leftover is that close to the even split. -/
theorem neutral_near_twap_iff (lib : Libm) (params : AlmgrenChrissParams) (ac : AlmgrenChriss) (twap : Twap)
    (neutral : params.riskAversion = 0) (built : construct lib params = .ok ac)
    (accepted : Twap.construct params.toTwapParams = .ok twap) :
    ac.binCount = twap.binCount ∧
    ((∀ i, i < twap.binCount →
        |((ac.schedule.getD i 0).toNat : ℤ) - (twap.schedule.getD i 0).toNat| ≤ 1) ↔
      (2 * (params.totalShares.toNat % params.binCount) < params.binCount ∧
          params.totalShares.toNat % params.binCount ≤ 1) ∨
        (params.binCount ≤ 2 * (params.totalShares.toNat % params.binCount) ∧
          (params.binCount ≤ params.totalShares.toNat % params.binCount + 2 ∨
            params.totalShares.toNat / params.binCount ≤ 1))) := by
  obtain ⟨schedule, count, positive, small⟩ := construct_ok built
  obtain ⟨rfl, -, -⟩ := Twap.construct_ok accepted
  refine ⟨count, ?_⟩
  rw [schedule, sharesToTrade_neutral neutral, ← leftover_near_iff _ positive]
  have below := Nat.mod_lt params.totalShares.toNat positive
  constructor
  · intro near
    have last := near (params.binCount - 1) (Nat.sub_lt positive Nat.one_pos)
    rwa [evenly_entry positive _ (by omega), if_pos rfl, Twap.split_entry positive small _ (by omega),
      if_neg (by omega), Nat.add_zero] at last
  · intro last i inside
    rw [evenly_entry positive _ inside, Twap.split_entry positive small _ inside]
    by_cases final : i = params.binCount - 1
    · rwa [if_pos final, if_neg (by omega), Nat.add_zero]
    · rw [if_neg final, uniformShare, abs_le]
      split <;> split <;> omega

theorem neutral_near_twap_seven :
    ∃ ac twap, construct still (sliced 7 4) = .ok ac ∧ Twap.construct (sliced 7 4).toTwapParams = .ok twap ∧
      ∀ i, i < twap.binCount → |((ac.schedule.getD i 0).toNat : ℤ) - (twap.schedule.getD i 0).toNat| ≤ 1 := by
  obtain ⟨ac, built⟩ : ∃ ac, construct still (sliced 7 4) = .ok ac := ⟨_, rfl⟩
  obtain ⟨twap, accepted⟩ : ∃ twap, Twap.construct (sliced 7 4).toTwapParams = .ok twap := ⟨_, rfl⟩
  have near := (neutral_near_twap_iff still (sliced 7 4) ac twap rfl built accepted).2.mpr (by decide)
  exact ⟨ac, twap, built, accepted, near⟩

-- Two shares over five bins: the rounded bins are all empty and the last one holds both.
theorem neutral_far_from_twap :
    ∃ ac twap, construct still (sliced 2 5) = .ok ac ∧ Twap.construct (sliced 2 5).toTwapParams = .ok twap ∧
      (sliced 2 5).riskAversion = 0 ∧ ac.schedule = [0, 0, 0, 0, 2] ∧ twap.schedule = [1, 1, 0, 0, 0] ∧
      ¬ ∀ i, i < twap.binCount →
        |((ac.schedule.getD i 0).toNat : ℤ) - (twap.schedule.getD i 0).toNat| ≤ 1 := by
  refine ⟨_, _, rfl, rfl, rfl, by decide +kernel, by decide, ?_⟩
  intro near
  have last := near 4 (by decide)
  revert last
  decide +kernel

end Uniform

end AlmgrenChriss

end ItchLob.Exec
