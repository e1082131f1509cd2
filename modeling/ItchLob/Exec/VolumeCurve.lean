import Mathlib.Data.Rat.Floor
import Mathlib.Tactic.Linarith
import Mathlib.Tactic.NormNum
import Mathlib.Tactic.Positivity
import Mathlib.Tactic.Ring
import ItchLob.Exec.Types

set_option autoImplicit false

namespace ItchLob.Exec

def kVolumeCurveBuckets : Nat := 13
def kCurveScale : UInt64 := 1000000

/-- The table, with what the constructor's rounding and its forced last entry leave true of it. -/
structure VolumeCurve where
  cumulative : List UInt64
  size : cumulative.length = kVolumeCurveBuckets
  nondecreasing : cumulative.Pairwise (· ≤ ·)
  ends : cumulative.getLast? = some kCurveScale

/-- IEEE double arithmetic as the constructor uses it: well inside the normal
range a result is off by at most one part in 2^53, and halves of small integers are exact. -/
structure Rounding where
  round : ℚ → ℚ
  close : ∀ x, 1 / 2 ^ 100 ≤ |x| → |x| ≤ 2 ^ 100 → |round x - x| ≤ |x| / 2 ^ 53
  halves : ∀ k : ℤ, |k| ≤ 2 ^ 53 → round (k / 2) = k / 2

-- Arithmetic that never rounds.
def Rounding.exact : Rounding where
  round := id
  close x _ _ := by
    rw [id, sub_self, abs_zero]
    positivity
  halves _ _ := rfl

namespace VolumeCurve

def kRelativeWeights : List ℚ := [15, 9, 7, 6, 5, 9 / 2, 9 / 2, 5, 11 / 2, 6, 7, 9, 16]

def total (fp : Rounding) : ℚ := kRelativeWeights.foldl (fun total w => fp.round (total + w)) 0

-- running / total * kCurveScale + 0.5, one rounding for each operation, then the truncating cast.
def scaled (fp : Rounding) (running total : ℚ) : ℚ :=
  fp.round (fp.round (fp.round (running / total) * kCurveScale.toNat) + 1 / 2)

def entry (fp : Rounding) (running total : ℚ) : UInt64 := UInt64.ofNat ⌊scaled fp running total⌋.toNat

-- The accumulator is the table so far and running.
def fill (fp : Rounding) : List UInt64 × ℚ :=
  kRelativeWeights.foldl (fun acc w =>
    let running := fp.round (acc.2 + w)
    (acc.1 ++ [entry fp running (total fp)], running)) ([], 0)

def table (fp : Rounding) : List UInt64 := (fill fp).1.set (kVolumeCurveBuckets - 1) kCurveScale

def cumulativeWeight (c : VolumeCurve) (i : Nat) : UInt64 :=
  c.cumulative.getD (if i ≥ kVolumeCurveBuckets then kVolumeCurveBuckets - 1 else i) 0

section Constructor

variable (fp : Rounding)

theorem round_close {x : ℚ} (low : 1 / 8 ≤ x) (high : x ≤ 2 ^ 21) : |fp.round x - x| ≤ x / 2 ^ 53 := by
  have positive : |x| = x := abs_of_nonneg (by linarith)
  have near := fp.close x (by rw [positive]; refine le_trans ?_ low; norm_num)
    (by rw [positive]; refine le_trans high ?_; norm_num)
  rwa [positive] at near

-- Three roundings move an entry by far less than the exact one is away from an integer.
theorem scaled_close {running total : ℚ} (low : 1 / 8 ≤ running / total) (high : running / total ≤ 1) :
    |scaled fp running total - (running / total * 1000000 + 1 / 2)| ≤ 1 / 1000 := by
  have scale : (kCurveScale.toNat : ℚ) = 1000000 := by rfl
  have share := abs_le.mp (round_close fp low (by linarith))
  have product := abs_le.mp (round_close fp (x := fp.round (running / total) * 1000000) (by linarith) (by linarith))
  have sum := abs_le.mp (round_close fp (x := fp.round (fp.round (running / total) * 1000000) + 1 / 2)
    (by linarith) (by linarith))
  rw [scaled, scale, abs_le]
  constructor <;> linarith

theorem entry_eq {running total : ℚ} (n : Nat) (low : 1 / 8 ≤ running / total) (high : running / total ≤ 1)
    (above : n + 1 / 1000 ≤ running / total * 1000000 + 1 / 2)
    (below : running / total * 1000000 + 1 / 2 < n + 1 - 1 / 1000) : entry fp running total = UInt64.ofNat n := by
  have near := abs_le.mp (scaled_close fp low high)
  have floor : ⌊scaled fp running total⌋ = (n : ℤ) := by
    rw [Int.floor_eq_iff]
    constructor
    · push_cast
      linarith
    · push_cast
      linarith
  rw [entry, floor, Int.toNat_natCast]

-- The weights in halves, and their running sums.
def half (k : ℤ) : ℚ := k / 2
def doubled : List ℤ := [30, 18, 14, 12, 10, 9, 9, 10, 11, 12, 14, 18, 32]

def sums : ℤ → List ℤ → List ℤ
  | _, [] => []
  | k, w :: rest => (k + w) :: sums (k + w) rest

theorem doubled_weights : doubled.map half = kRelativeWeights := by
  norm_num [doubled, half, kRelativeWeights]

theorem round_half {k w : ℤ} (start : 0 ≤ k) (weight : 0 ≤ w) (small : k + w ≤ 2 ^ 53) :
    fp.round (half k + half w) = half (k + w) := by
  have sum : half k + half w = ((k + w : ℤ) : ℚ) / 2 := by
    simp only [half]
    push_cast
    ring
  rw [sum, fp.halves _ (by rw [abs_of_nonneg (by omega)]; exact small), half]

theorem fill_sums (top : ℚ) (acc : List UInt64) (ks : List ℤ) (k : ℤ) (start : 0 ≤ k)
    (weights : ∀ w ∈ ks, 0 ≤ w) (small : k + ks.sum ≤ 2 ^ 53) :
    (ks.map half).foldl (fun (acc : List UInt64 × ℚ) w =>
        let running := fp.round (acc.2 + w)
        (acc.1 ++ [entry fp running top], running)) (acc, half k) =
      (acc ++ (sums k ks).map (fun sum => entry fp (half sum) top), half (k + ks.sum)) := by
  induction ks generalizing k acc with
  | nil => simp [sums]
  | cons w rest ih =>
    have later : ∀ w ∈ rest, 0 ≤ w := fun w member => weights w (List.mem_cons_of_mem _ member)
    have weight := weights w List.mem_cons_self
    have nonneg := List.sum_nonneg later
    rw [List.sum_cons] at small
    simp only [List.map_cons, List.foldl_cons, round_half fp start weight (by omega)]
    rw [ih _ (k + w) (by omega) later (by omega)]
    simp [sums, add_assoc]

theorem filled (top : ℚ) :
    kRelativeWeights.foldl (fun (acc : List UInt64 × ℚ) w =>
        let running := fp.round (acc.2 + w)
        (acc.1 ++ [entry fp running top], running)) ([], 0) =
      ((sums 0 doubled).map (fun sum => entry fp (half sum) top), half 199) := by
  have zero : (0 : ℚ) = half 0 := by norm_num [half]
  rw [← doubled_weights, zero, fill_sums fp top [] doubled 0 (le_refl _) (by decide) (by decide)]
  simp only [List.nil_append, zero_add]
  rfl

theorem total_eq : total fp = half 199 := by
  have running : total fp = (fill fp).2 := by
    rw [total, fill]
    change List.foldl _ (Prod.snd (([], 0) : List UInt64 × ℚ)) _ = _
    apply List.foldl_hom Prod.snd
    intro acc w
    rfl
  rw [running, fill, filled]

theorem entry_half {k : ℤ} (n : Nat) (low : 199 ≤ 8 * k) (high : k ≤ 199)
    (above : 199000 * (n : ℤ) + 199 ≤ 1000000000 * k + 99500)
    (below : 1000000000 * k + 99500 < 199000 * (n : ℤ) + 198801) :
    entry fp (half k) (half 199) = UInt64.ofNat n := by
  have low : (199 : ℚ) ≤ 8 * k := by exact_mod_cast low
  have high : (k : ℚ) ≤ 199 := by exact_mod_cast high
  have above : 199000 * (n : ℚ) + 199 ≤ 1000000000 * k + 99500 := by exact_mod_cast above
  have below : 1000000000 * (k : ℚ) + 99500 < 199000 * n + 198801 := by exact_mod_cast below
  have share : half k / half 199 = k / 199 := by
    simp only [half]
    push_cast
    ring
  apply entry_eq <;> rw [share] <;> linarith

def expected : List UInt64 :=
  [150754, 241206, 311558, 371859, 422111, 467337, 512563, 562814, 618090, 678392, 748744, 839196, 1000000]

theorem table_eq : table fp = expected := by
  have entries : (sums 0 doubled).map (fun sum => entry fp (half sum) (half 199)) = expected := by
    simp only [sums, doubled, List.map_cons, List.map_nil, expected]
    rw [entry_half fp 150754, entry_half fp 241206, entry_half fp 311558, entry_half fp 371859,
      entry_half fp 422111, entry_half fp 467337, entry_half fp 512563, entry_half fp 562814,
      entry_half fp 618090, entry_half fp 678392, entry_half fp 748744, entry_half fp 839196,
      entry_half fp 1000000]
    · rfl
    all_goals norm_num
  rw [table, fill, total_eq, filled, entries]
  rfl

end Constructor

def construct (fp : Rounding) : VolumeCurve where
  cumulative := table fp
  size := by rw [table_eq]; rfl
  nondecreasing := by rw [table_eq]; decide
  ends := by rw [table_eq]; rfl

section Knots

variable (c : VolumeCurve)

-- What has printed before bucket i starts.
def knot (i : Nat) : Nat := if i = 0 then 0 else (c.cumulativeWeight (i - 1)).toNat

theorem getD_mono {i j : Nat} (le : i ≤ j) (inside : j < kVolumeCurveBuckets) :
    c.cumulative.getD i 0 ≤ c.cumulative.getD j 0 := by
  have bound : j < c.cumulative.length := c.size ▸ inside
  rw [List.getD_eq_getElem _ _ (Nat.lt_of_le_of_lt le bound), List.getD_eq_getElem _ _ bound]
  rcases Nat.lt_or_eq_of_le le with lower | rfl
  · exact List.pairwise_iff_getElem.mp c.nondecreasing i j (Nat.lt_of_le_of_lt le bound) bound lower
  · exact UInt64.le_refl _

theorem cumulativeWeight_mono {i j : Nat} (le : i ≤ j) :
    (c.cumulativeWeight i).toNat ≤ (c.cumulativeWeight j).toNat := by
  refine UInt64.le_iff_toNat_le.mp (c.getD_mono ?_ ?_)
  · split_ifs <;> omega
  · split_ifs <;> simp only [kVolumeCurveBuckets] at * <;> omega

theorem knot_monotone : Monotone c.knot := by
  intro i j le
  simp only [knot]
  split_ifs with first last
  · exact Nat.le_refl _
  · exact Nat.zero_le _
  · omega
  · exact c.cumulativeWeight_mono (by omega)

theorem knot_climbs (i : Nat) : c.knot i ≤ c.knot (i + 1) := c.knot_monotone (Nat.le_succ i)

theorem knot_last {i : Nat} (beyond : kVolumeCurveBuckets ≤ i) : c.knot i = 1000000 := by
  have clamped : (if i - 1 ≥ kVolumeCurveBuckets then kVolumeCurveBuckets - 1 else i - 1) =
      kVolumeCurveBuckets - 1 := by
    split_ifs <;> omega
  have last := c.ends
  rw [List.getLast?_eq_getElem?, c.size] at last
  have nonzero : i ≠ 0 := by
    simp only [kVolumeCurveBuckets] at beyond
    omega
  rw [knot, if_neg nonzero, cumulativeWeight, clamped, List.getD_eq_getElem?_getD, last]
  rfl

theorem knot_le (i : Nat) : c.knot i ≤ 1000000 := by
  rw [← c.knot_last (Nat.le_add_left kVolumeCurveBuckets i)]
  exact c.knot_monotone (Nat.le_add_right _ _)

end Knots

end VolumeCurve

end ItchLob.Exec
