import Mathlib.Algebra.Order.Field.Power
import Mathlib.Algebra.Order.Field.Rat
import Mathlib.Tactic.Linarith
import Mathlib.Tactic.Positivity
import Mathlib.Tactic.Ring
import TrackedValues.Decimal

/-!
Decimals read back uniquely. The rounding intervals of different magnitudes meet in an end at most.
Of two that meet, one has an even significand and the other an odd one, so the end belongs to one
of them only. The shortest decimal of a number lies in its interval, whichever way it was found.
-/
namespace TrackedValues

namespace Binary64

theorem binade_pos : 0 < binade := by decide

theorem magnitude_eq (x : Binary64) :
    x.magnitude + binade = x.biased * binade + x.significand := by
  have whole := Nat.div_add_mod' x.magnitude binade
  unfold biased significand
  split
  · rename_i subnormal
    rw [Nat.div_eq_of_lt subnormal, Nat.max_eq_right (Nat.zero_le 1)]
    omega
  · rename_i normal
    have least : 1 ≤ x.magnitude / binade :=
      (Nat.le_div_iff_mul_le binade_pos).mpr (by omega)
    rw [Nat.max_eq_left least]
    omega

theorem significand_lt (x : Binary64) : x.significand < 2 * binade := by
  have below := Nat.mod_lt x.magnitude binade_pos
  unfold significand
  split <;> omega

theorem binade_le_significand {x : Binary64} (normal : 1 < x.biased) : binade ≤ x.significand := by
  unfold biased at normal
  unfold significand
  split
  · rename_i subnormal
    rw [Nat.div_eq_of_lt subnormal] at normal
    omega
  · omega

theorem significand_pos {x : Binary64} (nonzero : x.magnitude ≠ 0) : 0 < x.significand := by
  have positive := binade_pos
  unfold significand
  split <;> omega

end Binary64

namespace Decimal

def value (d : Decimal) : ℚ := d.digits * (10 : ℚ) ^ d.exponent

/-- Least quarters in one, as a power of two. -/
def grain : Nat := 1077

def measure (d : Decimal) : ℚ := d.value * 2 ^ grain

def low (x : Binary64) : Nat := lowEnd x * 2 ^ x.biased

def high (x : Binary64) : Nat := highEnd x * 2 ^ x.biased

theorem quarter_mul (x : Binary64) (p : Int) :
    (quarter x p : ℚ) * ((10 : ℚ) ^ p * 2 ^ grain) = unit x p * 2 ^ x.biased := by
  have tens : (10 : ℚ) ^ (-p).toNat * (10 : ℚ) ^ p = 10 ^ p.toNat := by
    rw [← zpow_natCast, ← zpow_natCast, ← zpow_add₀ (by norm_num)]
    congr 1
    omega
  have twos : (2 : ℚ) ^ (quarterExponent x).toNat * 2 ^ grain =
      2 ^ (-quarterExponent x).toNat * 2 ^ x.biased := by
    rw [← pow_add, ← pow_add]
    congr 1
    simp only [quarterExponent, Binary64.exponent, grain]
    omega
  have parts : (quarter x p : ℚ) = 2 ^ (quarterExponent x).toNat * 10 ^ (-p).toNat := by
    simp [quarter]
  have whole : (unit x p : ℚ) = 10 ^ p.toNat * 2 ^ (-quarterExponent x).toNat := by
    simp [unit]
  calc (quarter x p : ℚ) * ((10 : ℚ) ^ p * 2 ^ grain)
      = (10 ^ (-p).toNat * (10 : ℚ) ^ p) * (2 ^ (quarterExponent x).toNat * 2 ^ grain) := by
        rw [parts]
        ring
    _ = unit x p * 2 ^ x.biased := by
        rw [tens, twos, whole]
        ring

section
variable (x : Binary64) (d : Decimal) (n : Nat)

theorem point_mul : ((d.digits * unit x d.exponent : Nat) : ℚ) * ((10 : ℚ) ^ d.exponent * 2 ^ grain) =
    d.measure * unit x d.exponent := by
  rw [measure, value]
  push_cast
  ring

theorem end_mul : ((n * quarter x d.exponent : Nat) : ℚ) * ((10 : ℚ) ^ d.exponent * 2 ^ grain) =
    (n * 2 ^ x.biased : Nat) * unit x d.exponent := by
  push_cast
  rw [mul_assoc, quarter_mul]
  ring

theorem scale_pos : (0 : ℚ) < (10 : ℚ) ^ d.exponent * 2 ^ grain := by positivity

theorem end_le_point_iff : n * quarter x d.exponent ≤ d.digits * unit x d.exponent ↔
    ((n * 2 ^ x.biased : Nat) : ℚ) ≤ d.measure := by
  have whole : (0 : ℚ) < unit x d.exponent := Nat.cast_pos.mpr (unit_pos x d.exponent)
  rw [← Nat.cast_le (α := ℚ), ← mul_le_mul_iff_left₀ (scale_pos d), end_mul, point_mul,
    mul_le_mul_iff_left₀ whole]

theorem point_le_end_iff : d.digits * unit x d.exponent ≤ n * quarter x d.exponent ↔
    d.measure ≤ ((n * 2 ^ x.biased : Nat) : ℚ) := by
  have whole : (0 : ℚ) < unit x d.exponent := Nat.cast_pos.mpr (unit_pos x d.exponent)
  rw [← Nat.cast_le (α := ℚ), ← mul_le_mul_iff_left₀ (scale_pos d), end_mul, point_mul,
    mul_le_mul_iff_left₀ whole]

theorem readsBack_iff : ReadsBack x d ↔
    if x.significand % 2 = 0 then (low x : ℚ) ≤ d.measure ∧ d.measure ≤ high x
    else (low x : ℚ) < d.measure ∧ d.measure < high x := by
  unfold ReadsBack
  simp only [low, high]
  split
  · rw [end_le_point_iff, point_le_end_iff]
  · rw [← not_le, ← not_le, point_le_end_iff, end_le_point_iff, not_le, not_le]

end

theorem readsBack_congr {x : Binary64} {d e : Decimal} (same : d.value = e.value) :
    ReadsBack x d ↔ ReadsBack x e := by
  rw [readsBack_iff, readsBack_iff, measure, measure, same]

theorem measure_bounds {x : Binary64} {d : Decimal} (reads : ReadsBack x d) :
    (low x : ℚ) ≤ d.measure ∧ d.measure ≤ high x := by
  rw [readsBack_iff] at reads
  split at reads
  · exact reads
  · exact ⟨le_of_lt reads.1, le_of_lt reads.2⟩

theorem even_of_reaches_end {x : Binary64} {d : Decimal} (reads : ReadsBack x d)
    (reaches : d.measure = low x ∨ d.measure = high x) : x.significand % 2 = 0 := by
  by_contra odd
  rw [readsBack_iff, if_neg odd] at reads
  rcases reaches with bottom | top
  · exact absurd bottom (ne_of_gt reads.1)
  · exact absurd top (ne_of_lt reads.2)

theorem lowEnd_of_binade {x : Binary64} (normal : 1 < x.biased) :
    4 * Binary64.binade - 1 ≤ lowEnd x ∧
      (lowEnd x = 4 * Binary64.binade - 1 → x.significand = Binary64.binade) := by
  have least := Binary64.binade_le_significand normal
  have positive := Binary64.binade_pos
  unfold lowEnd Binary64.atBinadeStart
  by_cases start : x.significand = Binary64.binade
  · simp [start, normal]
  · simp [start]
    omega

theorem ends_apart_of_biased_eq {x y : Binary64} (same : x.biased = y.biased)
    (less : x.significand < y.significand) :
    high x < low y ∨ high x = low y ∧ (x.significand + y.significand) % 2 = 1 := by
  have ends : highEnd x < lowEnd y ∨
      highEnd x = lowEnd y ∧ (x.significand + y.significand) % 2 = 1 := by
    unfold highEnd lowEnd
    split <;> omega
  unfold high low
  rw [same]
  rcases ends with apart | ⟨meet, parity⟩
  · exact Or.inl (Nat.mul_lt_mul_of_pos_right apart (Nat.two_pow_pos _))
  · exact Or.inr ⟨by rw [meet], parity⟩

theorem ends_apart_of_biased_lt {x y : Binary64} (less : x.biased < y.biased) :
    high x < low y ∨ high x = low y ∧ (x.significand + y.significand) % 2 = 1 := by
  have normal : 1 < y.biased := Nat.lt_of_le_of_lt (Nat.le_max_right _ 1) less
  obtain ⟨least, start⟩ := lowEnd_of_binade normal
  have greatest := x.significand_lt
  have top : highEnd x ≤ 2 * (4 * Binary64.binade - 1) := by
    unfold highEnd
    omega
  have wider : 2 * 2 ^ x.biased ≤ 2 ^ y.biased := by
    rw [← pow_succ']
    exact Nat.pow_le_pow_right (by decide) less
  have above : high x ≤ 2 * (4 * Binary64.binade - 1) * 2 ^ x.biased :=
    Nat.mul_le_mul_right _ top
  have between : 2 * (4 * Binary64.binade - 1) * 2 ^ x.biased ≤
      (4 * Binary64.binade - 1) * 2 ^ y.biased := by
    rw [Nat.mul_comm 2, Nat.mul_assoc]
    exact Nat.mul_le_mul_left _ wider
  have below : (4 * Binary64.binade - 1) * 2 ^ y.biased ≤ low y := Nat.mul_le_mul_right _ least
  rcases Nat.lt_or_eq_of_le (above.trans (between.trans below)) with apart | meet
  · exact Or.inl apart
  · have last : highEnd x = 2 * (4 * Binary64.binade - 1) :=
      Nat.eq_of_mul_eq_mul_right (Nat.two_pow_pos x.biased) (show high x = _ by omega)
    have first : lowEnd y = 4 * Binary64.binade - 1 :=
      Nat.eq_of_mul_eq_mul_right (Nat.two_pow_pos y.biased) (show low y = _ by omega)
    have even : Binary64.binade % 2 = 0 := by decide
    have positive := Binary64.binade_pos
    have begins := start first
    unfold highEnd at last
    exact Or.inr ⟨meet, by omega⟩

/-- The interval of a smaller magnitude ends where that of a larger one begins, or before it. -/
theorem ends_apart {x y : Binary64} (less : x.magnitude < y.magnitude) :
    high x < low y ∨ high x = low y ∧ (x.significand + y.significand) % 2 = 1 := by
  have whole := x.magnitude_eq
  have whole' := y.magnitude_eq
  rcases Nat.lt_trichotomy x.biased y.biased with lower | same | higher
  · exact ends_apart_of_biased_lt lower
  · rw [same] at whole
    exact ends_apart_of_biased_eq same (by omega)
  · have normal : 1 < x.biased := Nat.lt_of_le_of_lt (Nat.le_max_right _ 1) higher
    have least := Binary64.binade_le_significand normal
    have greatest := y.significand_lt
    have steps : (y.biased + 1) * Binary64.binade ≤ x.biased * Binary64.binade :=
      Nat.mul_le_mul_right _ higher
    rw [Nat.add_mul] at steps
    omega

theorem not_less_of_readsBack {x y : Binary64} {d : Decimal} (reads : ReadsBack x d)
    (reads' : ReadsBack y d) : ¬x.magnitude < y.magnitude := by
  intro less
  have below := (measure_bounds reads).2
  have above := (measure_bounds reads').1
  rcases ends_apart less with apart | ⟨meet, parity⟩
  · have apart : (high x : ℚ) < low y := Nat.cast_lt.mpr apart
    linarith
  · have meet : (high x : ℚ) = low y := congrArg Nat.cast meet
    have even := even_of_reaches_end reads (Or.inr (by linarith))
    have even' := even_of_reaches_end reads' (Or.inl (by linarith))
    omega

/-- A decimal reads back as one magnitude at most. -/
theorem magnitude_eq_of_readsBack {x y : Binary64} {d e : Decimal} (reads : ReadsBack x d)
    (reads' : ReadsBack y e) (same : d.value = e.value) : x.magnitude = y.magnitude := by
  have reads' := (readsBack_congr same).mpr reads'
  have lower := not_less_of_readsBack reads reads'
  have higher := not_less_of_readsBack reads' reads
  omega

theorem value_shift (n k : Nat) (p : Int) :
    value ⟨n * 10 ^ k, p⟩ = value ⟨n, p + k⟩ := by
  simp only [value]
  rw [zpow_add₀ (by norm_num), zpow_natCast]
  push_cast
  ring

theorem readsBack_of_onGrid {x : Binary64} {p : Int} {k : Nat} {d : Decimal}
    (hit : (window x p).onGrid? k = some d) : ReadsBack x d := by
  have found : ∀ n, (window x p).Contains (n * Nat.pow 10 k) → ReadsBack x ⟨n, p + k⟩ := by
    intro n inside
    exact (readsBack_congr (value_shift n k p)).mp ((contains_window_iff x p _).mp inside)
  have grid : (window x p).exponent = p := by
    unfold window
    split <;> rfl
  unfold Window.onGrid? at hit
  rw [grid] at hit
  simp only at hit
  split at hit
  · rename_i below
    cases hit
    exact found _ below.1
  · split at hit
    · rename_i above
      cases hit
      rw [← Nat.succ_mul] at above
      exact found _ above
    · cases hit

theorem readsBack_of_search {x : Binary64} {p : Int} {k : Nat} {d : Decimal}
    (hit : (window x p).search k = some d) : ReadsBack x d := by
  induction k with
  | zero => exact readsBack_of_onGrid hit
  | succ k ih =>
    unfold Window.search at hit
    split at hit
    · rename_i e found
      cases hit
      exact readsBack_of_onGrid found
    · exact ih hit

theorem value_exact (x : Binary64) : value (exact x) = x.significand * (2 : ℚ) ^ x.exponent := by
  unfold exact value
  split
  · rename_i whole
    have power : (2 : ℚ) ^ x.exponent = 2 ^ x.exponent.toNat := by
      rw [← zpow_natCast, Int.toNat_of_nonneg whole]
    simp [power]
  · rename_i fraction
    have fives : (5 : ℚ) ^ (-x.exponent).toNat * (5 : ℚ) ^ x.exponent = 1 := by
      rw [← zpow_natCast, Int.toNat_of_nonneg (by omega), ← zpow_add₀ (by norm_num)]
      simp
    have tens : (10 : ℚ) ^ x.exponent = 5 ^ x.exponent * 2 ^ x.exponent := by
      rw [← mul_zpow]
      norm_num
    calc ((x.significand * Nat.pow 5 (-x.exponent).toNat : Nat) : ℚ) * (10 : ℚ) ^ x.exponent
        = x.significand * (5 ^ (-x.exponent).toNat * (5 : ℚ) ^ x.exponent) * 2 ^ x.exponent := by
          rw [tens]
          push_cast
          simp
          ring
      _ = x.significand * (2 : ℚ) ^ x.exponent := by rw [fives, mul_one]

theorem measure_exact (x : Binary64) :
    (exact x).measure = (4 * x.significand * 2 ^ x.biased : Nat) := by
  have power : (2 : ℚ) ^ x.exponent * 2 ^ grain = 4 * 2 ^ x.biased := by
    rw [← zpow_natCast, ← zpow_natCast, ← zpow_add₀ (by norm_num)]
    have shifted : x.exponent + (grain : Nat) = 2 + (x.biased : Nat) := by
      simp only [Binary64.exponent, grain]
      omega
    rw [shifted, zpow_add₀ (by norm_num)]
    norm_num
  rw [measure, value_exact, mul_assoc, power]
  push_cast
  ring

theorem readsBack_exact {x : Binary64} (nonzero : x.magnitude ≠ 0) : ReadsBack x (exact x) := by
  have positive := Binary64.significand_pos nonzero
  have bottom : lowEnd x < 4 * x.significand := by
    unfold lowEnd
    split <;> omega
  have top : 4 * x.significand < highEnd x := by
    unfold highEnd
    omega
  have below : (low x : ℚ) < (exact x).measure := by
    rw [measure_exact]
    exact Nat.cast_lt.mpr (Nat.mul_lt_mul_of_pos_right bottom (Nat.two_pow_pos _))
  have above : (exact x).measure < high x := by
    rw [measure_exact]
    exact Nat.cast_lt.mpr (Nat.mul_lt_mul_of_pos_right top (Nat.two_pow_pos _))
  rw [readsBack_iff]
  split
  · exact ⟨le_of_lt below, le_of_lt above⟩
  · exact ⟨below, above⟩

theorem readsBack_shortest {x : Binary64} (nonzero : x.magnitude ≠ 0) :
    ReadsBack x (shortest x) := by
  unfold shortest
  cases hit : (window x (firstGrid x - 19)).search 19 with
  | some d => exact readsBack_of_search hit
  | none => exact readsBack_exact nonzero

theorem value_pos_of_readsBack {x : Binary64} {d : Decimal} (nonzero : x.magnitude ≠ 0)
    (reads : ReadsBack x d) : 0 < d.value := by
  have positive := Binary64.significand_pos nonzero
  have bottom : 0 < lowEnd x := by
    unfold lowEnd
    split <;> omega
  have low : (0 : ℚ) < low x := Nat.cast_pos.mpr (Nat.mul_pos bottom (Nat.two_pow_pos _))
  have measured : 0 < d.value * 2 ^ grain := lt_of_lt_of_le low (measure_bounds reads).1
  exact pos_of_mul_pos_left measured (by positivity)

end Decimal
end TrackedValues
