import HostKit.Proofs.Decimal.Rounding
import Mathlib

/-!
# Digits that read back

A decimal in the interval of a number rounds to the number. Below a number whose integer is the
least one with 53 bits the exponent is smaller by one, so there a decimal is rounded at that
exponent and carries over. The search for the fewest digits ends with a decimal in the interval: the
last one of its grids is so fine that the nearest point on it is further inside the interval than
its ends.
-/

namespace HostKit

open Binary64 (powerOver powerOver_pos powerOver_div Rounds IsScale IsNormal minNormal minExponent
  maxExponent)

namespace Shortest

/-! ## Ratios and intervals as rationals -/

/-- The rational that a fraction is. -/
def Ratio.value (x : Ratio) : ℚ := x.num / x.den

/-- Fractions compare as the rationals. -/
theorem Ratio.lt_iff {a b : Ratio} (ha : 0 < a.den) (hb : 0 < b.den) :
    a.lt b = true ↔ a.value < b.value := by
  have ha' : (0 : ℚ) < a.den := by exact_mod_cast ha
  have hb' : (0 : ℚ) < b.den := by exact_mod_cast hb
  rw [Ratio.value, Ratio.value, div_lt_div_iff₀ ha' hb', Ratio.lt, decide_eq_true_iff]
  norm_cast

/-- An integer times a power of two. -/
theorem Ratio.value_ofBinary (significand : ℕ) (exponent : ℤ) :
    (ofBinary significand exponent).value = significand * 2 ^ exponent := by
  have hpower := powerOver_div two_pos exponent
  rw [Nat.cast_two] at hpower
  rw [← hpower, ← mul_div_assoc, Ratio.value]
  exact congrArg (· / _) (Nat.cast_mul _ _)

/-- An integer times a power of ten. -/
theorem Ratio.value_ofDecimal (digits : ℕ) (exponent : ℤ) :
    (ofDecimal digits exponent).value = digits * 10 ^ exponent := by
  have hpower := powerOver_div (by norm_num : 0 < 10) exponent
  rw [Nat.cast_ofNat] at hpower
  rw [← hpower, ← mul_div_assoc, Ratio.value]
  exact congrArg (· / _) (Nat.cast_mul _ _)

/-- The denominators are positive. -/
theorem Ratio.den_ofBinary_pos (significand : ℕ) (exponent : ℤ) :
    0 < (ofBinary significand exponent).den := (powerOver_pos two_pos exponent).2

/-- The denominators are positive. -/
theorem Ratio.den_ofDecimal_pos (digits : ℕ) (exponent : ℤ) :
    0 < (ofDecimal digits exponent).den := (powerOver_pos (by norm_num : 0 < 10) exponent).2

/-- The lower end of the interval of a number. -/
def lowEnd (significand : ℕ) (exponent : ℤ) : ℚ :=
  if significand = minNormal ∧ minExponent < exponent then (significand - 1 / 4) * 2 ^ exponent
  else (significand - 1 / 2) * 2 ^ exponent

/-- The upper end of the interval of a number. -/
def highEnd (significand : ℕ) (exponent : ℤ) : ℚ := (significand + 1 / 2) * 2 ^ exponent

/-- A fraction lies in the interval of a number exactly if the rational does. -/
theorem contains_of_iff {significand : ℕ} {exponent : ℤ} (hpos : 0 < significand) {x : Ratio}
    (hx : 0 < x.den) :
    (Interval.of significand exponent).contains x = true ↔
      if significand % 2 = 0 then
        lowEnd significand exponent ≤ x.value ∧ x.value ≤ highEnd significand exponent
      else lowEnd significand exponent < x.value ∧ x.value < highEnd significand exponent := by
  have hhigh : (Interval.of significand exponent).high.value = highEnd significand exponent := by
    rw [Interval.of, highEnd, Ratio.value_ofBinary, zpow_sub_one₀ two_ne_zero]
    push_cast
    ring
  have hlow : (Interval.of significand exponent).low.value = lowEnd significand exponent := by
    unfold Interval.of lowEnd
    dsimp only
    split
    · rw [Ratio.value_ofBinary, Nat.cast_sub (by omega), zpow_sub₀ two_ne_zero]
      push_cast
      ring
    · rw [Ratio.value_ofBinary, Nat.cast_sub (by omega), zpow_sub_one₀ two_ne_zero]
      push_cast
      ring
  have hlowDen : 0 < (Interval.of significand exponent).low.den := by
    unfold Interval.of
    dsimp only
    split
    · exact Ratio.den_ofBinary_pos _ _
    · exact Ratio.den_ofBinary_pos _ _
  have hhighDen : 0 < (Interval.of significand exponent).high.den := Ratio.den_ofBinary_pos _ _
  have hclosed : (Interval.of significand exponent).closed = decide (significand % 2 = 0) := rfl
  rw [← hlow, ← hhigh, Interval.contains, hclosed]
  simp only [decide_eq_true_iff]
  split
  · rw [Bool.and_eq_true, Bool.not_eq_true', Bool.not_eq_true', ← Bool.not_eq_true,
      ← Bool.not_eq_true, Ratio.lt_iff hx hlowDen, Ratio.lt_iff hhighDen hx, not_lt, not_lt]
  · rw [Bool.and_eq_true, Ratio.lt_iff hlowDen hx, Ratio.lt_iff hx hhighDen]

/-! ## Decimals in the interval -/

variable {significand : ℕ} {exponent : ℤ} {x : Ratio}

/-- Where the exponent changes, the interval reaches down a quarter only. -/
theorem ge_of_contains (hpos : 0 < significand) (hx : 0 < x.den)
    (hedge : significand = minNormal ∧ minExponent < exponent)
    (h : (Interval.of significand exponent).contains x = true) :
    (significand : ℚ) - 1 / 4 ≤ x.value / 2 ^ exponent := by
  rw [contains_of_iff hpos hx, lowEnd, if_pos hedge] at h
  rw [le_div_iff₀ (by positivity)]
  split at h
  · exact h.1
  · exact h.1.le

/-- What lies in the interval of a number rounds to its integer at its exponent. -/
theorem rounds_of_contains (hpos : 0 < significand) (hx : 0 < x.den)
    (h : (Interval.of significand exponent).contains x = true) :
    Rounds (x.value / 2 ^ exponent) significand := by
  have hlow : ((significand : ℚ) - 1 / 2) * 2 ^ exponent ≤ lowEnd significand exponent := by
    unfold lowEnd
    split
    · exact mul_le_mul_of_nonneg_right (by linarith) (by positivity)
    · exact le_rfl
  rw [contains_of_iff hpos hx, highEnd] at h
  unfold Rounds
  split at h
  · next heven =>
    have h' := (le_div_iff₀ (by positivity)).mpr (hlow.trans h.1)
    have h'' := (div_le_iff₀ (by positivity)).mpr h.2
    rw [if_pos heven, abs_le]
    constructor <;> linarith
  · next hodd =>
    have h' := (lt_div_iff₀ (by positivity)).mpr (hlow.trans_lt h.1)
    have h'' := (div_lt_iff₀ (by positivity)).mpr h.2
    rw [if_neg hodd, abs_lt]
    constructor <;> linarith

/-- A number in the interval is positive. -/
theorem num_pos_of_contains (hpos : 0 < significand) (hx : 0 < x.den)
    (h : (Interval.of significand exponent).contains x = true) : 0 < x.num := by
  have hnear := abs_le.mp (rounds_of_contains hpos hx h).le
  have hone : (1 : ℚ) ≤ significand := by exact_mod_cast hpos
  have hvalue : 0 < x.value / 2 ^ exponent := by linarith [hnear.1]
  by_contra hnum
  obtain hnum : x.num = 0 := by omega
  rw [Ratio.value, hnum] at hvalue
  simp at hvalue

/-- Below the least number with 53 bits a decimal of the interval is scaled at the exponent below,
and rounding it carries over to one bit more. -/
theorem ofRatio_of_contains_below (negative : Bool) (hnormal : IsNormal significand exponent)
    (hpos : 0 < significand) (hx : 0 < x.den)
    (h : (Interval.of significand exponent).contains x = true)
    (hbelow : x.value / 2 ^ exponent < 2 ^ 52) (hleast : minExponent < exponent) :
    Binary64.ofRatio negative x.num x.den = .finite negative significand exponent := by
  have hnum := num_pos_of_contains hpos hx h
  have hnear := abs_le.mp (rounds_of_contains hpos hx h).le
  have hfull : 2 ^ 52 ≤ significand := hnormal.full.resolve_right hleast.ne'
  have hsignificand : significand = minNormal := by
    have : (significand : ℚ) < 2 ^ 52 + 1 := by linarith [hnear.1]
    have : significand < 2 ^ 52 + 1 := by exact_mod_cast this
    rw [Binary64.minNormal_eq]
    omega
  have hquarter := ge_of_contains hpos hx ⟨hsignificand, hleast⟩ h
  rw [hsignificand, Binary64.minNormal_eq] at hquarter
  push_cast at hquarter
  have hdouble : x.value / 2 ^ (exponent - 1) = 2 * (x.value / 2 ^ exponent) := by
    rw [zpow_sub_one₀ two_ne_zero]
    field_simp
  have hscale : IsScale x.value (exponent - 1) := by
    constructor
    · rw [hdouble]
      linarith
    · rw [hdouble]
      linarith
  have hcarry : Binary64.significandAt x.num x.den (exponent - 1) = 2 ^ 53 := by
    rw [Binary64.significandAt_eq_iff hx]
    change Rounds (x.value / 2 ^ (exponent - 1)) _
    unfold Rounds
    rw [if_pos (by norm_num), hdouble, abs_le]
    push_cast
    constructor <;> linarith
  rw [Binary64.ofRatio, if_neg hnum.ne']
  dsimp only
  rw [(Binary64.isScale_scaleOf hnum hx).unique hscale, max_eq_left (by omega), hcarry,
    Binary64.carried, if_pos Binary64.size_fiftyThree.symm, hsignificand, Binary64.bounded,
    sub_add_cancel, if_neg (not_lt.mpr hnormal.greatest)]

/-- Any other decimal of the interval is scaled at the exponent of the number. -/
theorem ofRatio_of_contains_at (negative : Bool) (hnormal : IsNormal significand exponent)
    (hpos : 0 < significand) (hx : 0 < x.den)
    (h : (Interval.of significand exponent).contains x = true)
    (hfull : minExponent < exponent → 2 ^ 52 ≤ x.value / 2 ^ exponent) :
    Binary64.ofRatio negative x.num x.den = .finite negative significand exponent := by
  have hnum := num_pos_of_contains hpos hx h
  have hround := rounds_of_contains hpos hx h
  have hscale : IsScale x.value (Binary64.scaleOf x.num x.den) :=
    Binary64.isScale_scaleOf hnum hx
  have hsmall : x.value / 2 ^ exponent < 2 ^ 53 := by
    have : (significand : ℚ) + 1 ≤ 2 ^ 53 := by exact_mod_cast hnormal.fits
    linarith [(abs_le.mp hround.le).2]
  have hexponent : max (Binary64.scaleOf x.num x.den) minExponent = exponent := by
    have hle : Binary64.scaleOf x.num x.den ≤ exponent := hscale.le_of_lt hsmall
    rcases eq_or_lt_of_le hnormal.least with heq | hleast
    · rw [heq]
      exact max_eq_right (heq ▸ hle)
    · rw [hscale.unique ⟨hfull hleast, hsmall⟩]
      exact max_eq_left hleast.le
  have hsignificand : Binary64.significandAt x.num x.den exponent = significand :=
    (Binary64.significandAt_eq_iff hx exponent).mpr hround
  rw [Binary64.ofRatio, if_neg hnum.ne']
  dsimp only
  rw [hexponent, hsignificand, Binary64.carried, Binary64.size_fiftyThree,
    if_neg hnormal.fits.ne, Binary64.bounded, if_neg (not_lt.mpr hnormal.greatest)]

/-- A fraction in the interval of a number rounds to the number. -/
theorem ofRatio_of_contains (negative : Bool) (hnormal : IsNormal significand exponent)
    (hpos : 0 < significand) (hx : 0 < x.den)
    (h : (Interval.of significand exponent).contains x = true) :
    Binary64.ofRatio negative x.num x.den = .finite negative significand exponent := by
  by_cases hedge : x.value / 2 ^ exponent < 2 ^ 52 ∧ minExponent < exponent
  · exact ofRatio_of_contains_below negative hnormal hpos hx h hedge.1 hedge.2
  · apply ofRatio_of_contains_at negative hnormal hpos hx h
    intro hleast
    by_contra hlt
    exact hedge ⟨not_le.mp hlt, hleast⟩

/-- Only the rational counts for lying in the interval of a number. -/
theorem contains_congr {y : Ratio} (hpos : 0 < significand) (hx : 0 < x.den) (hy : 0 < y.den)
    (hvalue : x.value = y.value) :
    (Interval.of significand exponent).contains x =
    (Interval.of significand exponent).contains y := by
  rw [Bool.eq_iff_iff, contains_of_iff hpos hx, contains_of_iff hpos hy, hvalue]

/-- A number lies between two powers of ten by the count of its digits. -/
theorem toDigits_bounds {n : ℕ} (h : 0 < n) :
    10 ^ ((Nat.toDigits 10 n).length - 1) ≤ n ∧ n < 10 ^ (Nat.toDigits 10 n).length := by
  have hlength : 0 < (Nat.toDigits 10 n).length := Nat.length_toDigits_pos
  constructor
  · rcases Nat.eq_or_lt_of_le (Nat.one_le_iff_ne_zero.mpr hlength.ne') with hone | hmore
    · rw [← hone]
      exact h
    · by_contra hlt
      have := (Nat.length_toDigits_le_iff (by norm_num) (by omega)).mpr (not_le.mp hlt)
      omega
  · exact (Nat.length_toDigits_le_iff (by norm_num) hlength).mp le_rfl

/-- A number with digits lies between two powers of ten. -/
theorem value_bounds_of_size {digits : ℕ} (hdigits : 0 < digits) (power : ℤ) :
    (10 : ℚ) ^ (((Nat.toDigits 10 digits).length : ℤ) - 1 + power) ≤ digits * 10 ^ power ∧
      digits * 10 ^ power < (10 : ℚ) ^ (((Nat.toDigits 10 digits).length : ℤ) + power) := by
  have hlength : 0 < (Nat.toDigits 10 digits).length := Nat.length_toDigits_pos
  obtain ⟨hlow, hhigh⟩ := toDigits_bounds hdigits
  generalize (Nat.toDigits 10 digits).length = size at hlength hlow hhigh ⊢
  have hten : (0 : ℚ) < 10 ^ power := by positivity
  constructor
  · rw [zpow_add₀ (by norm_num)]
    apply mul_le_mul_of_nonneg_right _ hten.le
    rw [show ((size : ℤ) - 1) = ((size - 1 : ℕ) : ℤ) by omega, zpow_natCast]
    exact_mod_cast hlow
  · rw [zpow_add₀ (by norm_num), zpow_natCast]
    apply mul_lt_mul_of_pos_right _ hten
    exact_mod_cast hhigh

/-- What lies in the interval of a number is not much larger than the largest and not much smaller
than the least one. -/
theorem value_bounds_of_contains (hnormal : IsNormal significand exponent) (hpos : 0 < significand)
    (hx : 0 < x.den) (h : (Interval.of significand exponent).contains x = true) :
    (10 : ℚ) ^ (-324 : ℤ) < x.value ∧ x.value < 10 ^ (309 : ℤ) := by
  have hnear := abs_le.mp (rounds_of_contains hpos hx h).le
  have htwo : (0 : ℚ) < 2 ^ exponent := by positivity
  have hone : (1 : ℚ) ≤ significand := by exact_mod_cast hpos
  have hfits : (significand : ℚ) + 1 ≤ 2 ^ 53 := by exact_mod_cast hnormal.fits
  constructor
  · have hexponent : (2 : ℚ) ^ (-1074 : ℤ) ≤ 2 ^ exponent :=
      zpow_le_zpow_right₀ (by norm_num) hnormal.least
    calc (10 : ℚ) ^ (-324 : ℤ) < 1 / 2 * 2 ^ (-1074 : ℤ) := by
          have hlarge : 2 * 2 ^ 1074 < 10 ^ 324 := by decide +kernel
          have hlarge : (2 : ℚ) * 2 ^ (1074 : ℤ) < 10 ^ (324 : ℤ) := by exact_mod_cast hlarge
          rw [zpow_neg, zpow_neg, one_div, ← mul_inv]
          exact inv_strictAnti₀ (by positivity) hlarge
      _ ≤ 1 / 2 * 2 ^ exponent := mul_le_mul_of_nonneg_left hexponent (by norm_num)
      _ ≤ x.value := by
          rw [← le_div_iff₀ htwo]
          linarith [hnear.1]
  · have hexponent : (2 : ℚ) ^ exponent ≤ 2 ^ (971 : ℤ) :=
      zpow_le_zpow_right₀ (by norm_num) hnormal.greatest
    calc x.value ≤ 2 ^ 53 * 2 ^ exponent := by
          rw [← div_le_iff₀ htwo]
          linarith [hnear.2]
      _ ≤ 2 ^ 53 * 2 ^ (971 : ℤ) := mul_le_mul_of_nonneg_left hexponent (by positivity)
      _ < 10 ^ (309 : ℤ) := by
          have hlarge : 2 ^ 53 * 2 ^ 971 < 10 ^ 309 := by decide +kernel
          exact_mod_cast hlarge

/-- A decimal in the interval of a number is neither too large nor too small to be looked at. -/
theorem size_of_contains {digits : ℕ} {power : ℤ} (hnormal : IsNormal significand exponent)
    (hpos : 0 < significand) (hdigits : 0 < digits)
    (h : (Interval.of significand exponent).contains (.ofDecimal digits power) = true) :
    ((Nat.toDigits 10 digits).length : ℤ) + power ≤ 310 ∧
      -330 ≤ ((Nat.toDigits 10 digits).length : ℤ) + power := by
  obtain ⟨hlow, hhigh⟩ := value_bounds_of_size hdigits power
  obtain ⟨habove, hbelow⟩ :=
    value_bounds_of_contains hnormal hpos (Ratio.den_ofDecimal_pos _ _) h
  rw [Ratio.value_ofDecimal] at habove hbelow
  have hupper := (zpow_lt_zpow_iff_right₀ (by norm_num)).mp (hlow.trans_lt hbelow)
  have hlower := (zpow_lt_zpow_iff_right₀ (by norm_num)).mp (habove.trans hhigh)
  omega

/-- A decimal in the interval of a number rounds to the number. -/
theorem ofDecimal_of_contains (negative : Bool) {digits : ℕ} {power : ℤ}
    (hnormal : IsNormal significand exponent) (hpos : 0 < significand)
    (h : (Interval.of significand exponent).contains (.ofDecimal digits power) = true) :
    Binary64.ofDecimal negative digits power = .finite negative significand exponent := by
  have hden := Ratio.den_ofDecimal_pos digits power
  have hdigits : 0 < digits := Nat.pos_of_mul_pos_right (num_pos_of_contains hpos hden h)
  obtain ⟨hupper, hlower⟩ := size_of_contains hnormal hpos hdigits h
  rw [Binary64.ofDecimal, if_neg hdigits.ne', if_neg (not_lt.mpr hupper),
    if_neg (not_lt.mpr hlower)]
  exact ofRatio_of_contains negative hnormal hpos hden h

/-! ## The search -/

/-- A point that is taken lies in the interval. -/
theorem contains_of_onGrid? {interval : Interval} {power : ℤ} {digits : ℕ}
    (h : onGrid? interval x power = some digits) :
    interval.contains (.ofDecimal digits power) = true := by
  have htaken {point : ℕ} {later : Option ℕ}
      (hpoint : (if interval.contains (.ofDecimal point power) = true then some point else later) =
        some digits) (hlater : later = some digits → interval.contains (.ofDecimal digits power)) :
      interval.contains (.ofDecimal digits power) = true := by
    split at hpoint
    · next hin =>
      obtain rfl := Option.some.inj hpoint
      exact hin
    · exact hlater hpoint
  exact htaken h fun hother => htaken hother fun hnone => nomatch hnone

/-- The nearest point on a grid is taken if it lies in the interval. -/
theorem onGrid?_ne_none {interval : Interval} {power : ℤ}
    (h : interval.contains (.ofDecimal
      (Binary64.roundDiv (x.num * (powerOver 10 power).2) (x.den * (powerOver 10 power).1)) power) =
        true) :
    onGrid? interval x power ≠ none := by
  unfold onGrid?
  dsimp only
  rw [if_pos h]
  exact Option.some_ne_none _

/-- A search that reaches a grid with a point to take ends with a point in the interval. -/
theorem contains_of_search {interval : Interval} {power : ℤ} {grids : ℕ}
    (h : ∃ k < grids, onGrid? interval x (power - k) ≠ none) :
    interval.contains (.ofDecimal (search interval x power grids).1
      (search interval x power grids).2) = true := by
  induction grids generalizing power with
  | zero =>
    obtain ⟨k, hk, -⟩ := h
    exact absurd hk (Nat.not_lt_zero k)
  | succ grids ih =>
    cases hgrid : onGrid? interval x power with
    | some digits =>
      simp only [search, hgrid]
      exact contains_of_onGrid? hgrid
    | none =>
      simp only [search, hgrid]
      apply ih
      obtain ⟨k, hk, hpoint⟩ := h
      rcases Nat.eq_zero_or_pos k with rfl | hpos
      · rw [Nat.cast_zero, sub_zero] at hpoint
        exact absurd hgrid hpoint
      · refine ⟨k - 1, by omega, ?_⟩
        rwa [show power - 1 - ((k - 1 : ℕ) : ℤ) = power - k by omega]

/-- The decimal point stands where the number begins. -/
theorem pointPosition_bounds (hnum : 0 < x.num) (hden : 0 < x.den) :
    (10 : ℚ) ^ (pointPosition x - 1) ≤ x.value := by
  obtain ⟨hnumLow, hnumHigh⟩ := toDigits_bounds hnum
  obtain ⟨hdenLow, hdenHigh⟩ := toDigits_bounds hden
  have hnumPos : 0 < (Nat.toDigits 10 x.num).length := Nat.length_toDigits_pos
  have hdenPos : 0 < (Nat.toDigits 10 x.den).length := Nat.length_toDigits_pos
  unfold pointPosition
  dsimp only
  split
  · have hden' : (0 : ℚ) < x.den := by exact_mod_cast hden
    have hnumLow' : (10 : ℚ) ^ ((Nat.toDigits 10 x.num).length - 1) ≤ x.num := by
      exact_mod_cast hnumLow
    have hdenHigh' : (x.den : ℚ) ≤ 10 ^ (Nat.toDigits 10 x.den).length := by
      exact_mod_cast hdenHigh.le
    calc (10 : ℚ) ^ (((Nat.toDigits 10 x.num).length : ℤ) - (Nat.toDigits 10 x.den).length - 1)
        = 10 ^ ((Nat.toDigits 10 x.num).length - 1) / 10 ^ (Nat.toDigits 10 x.den).length := by
          rw [← zpow_natCast, ← zpow_natCast, ← zpow_sub₀ (by norm_num)]
          congr 1
          omega
      _ ≤ x.num / x.den := div_le_div₀ (by positivity) hnumLow' hden' hdenHigh'
  · next h =>
    rw [Ratio.lt_iff hden (Ratio.den_ofDecimal_pos _ _), not_lt, Ratio.value_ofDecimal,
      Nat.cast_one, one_mul] at h
    rw [add_sub_cancel_right]
    exact h

/-- A ratio scaled by a power of ten. -/
theorem value_scaled (hden : 0 < x.den) (power : ℤ) :
    ((x.num * (powerOver 10 power).2 : ℕ) : ℚ) / (x.den * (powerOver 10 power).1 : ℕ) =
      x.value / 10 ^ power := by
  obtain ⟨habove, hbelow⟩ := powerOver_pos (by norm_num : 0 < 10) power
  have hdiv := powerOver_div (by norm_num : 0 < 10) power
  have hbelow' : ((powerOver 10 power).2 : ℚ) ≠ 0 := by exact_mod_cast hbelow.ne'
  have habove' : ((powerOver 10 power).1 : ℚ) ≠ 0 := by exact_mod_cast habove.ne'
  have hden' : (x.den : ℚ) ≠ 0 := by exact_mod_cast hden.ne'
  rw [Nat.cast_ofNat] at hdiv
  rw [← hdiv, Ratio.value]
  push_cast
  field_simp

/-- The nearest point on a grid is half a step away at most. -/
theorem nearest_bounds (hden : 0 < x.den) (power : ℤ) :
    x.value - 10 ^ power / 2 ≤ (Binary64.roundDiv (x.num * (powerOver 10 power).2)
        (x.den * (powerOver 10 power).1) : ℚ) * 10 ^ power ∧
      (Binary64.roundDiv (x.num * (powerOver 10 power).2)
        (x.den * (powerOver 10 power).1) : ℚ) * 10 ^ power ≤ x.value + 10 ^ power / 2 := by
  obtain ⟨habove, -⟩ := powerOver_pos (by norm_num : 0 < 10) power
  have hround := @Binary64.rounds_roundDiv (x.num * (powerOver 10 power).2) _
    (Nat.mul_pos hden habove)
  rw [value_scaled hden] at hround
  generalize Binary64.roundDiv _ _ = nearest at hround ⊢
  have hten : (0 : ℚ) < 10 ^ power := by positivity
  have hnear := abs_le.mp hround.le
  have hlower := mul_le_mul_of_nonneg_right hnear.2 hten.le
  have hupper := mul_le_mul_of_nonneg_right hnear.1 hten.le
  rw [sub_mul, div_mul_cancel₀ _ hten.ne'] at hlower hupper
  constructor <;> linarith

/-- The steps of a grid that is fine enough are shorter than a quarter of the last bit. -/
theorem step_lt_quarter (hnormal : IsNormal significand exponent)
    (hx : x.value = significand * 2 ^ exponent) {power : ℤ}
    (hpower : (10 : ℚ) ^ (power + 17) ≤ x.value) : 10 ^ power < (2 : ℚ) ^ exponent * (1 / 4) := by
  have htwo : (0 : ℚ) < 2 ^ exponent := by positivity
  have hfits : (significand : ℚ) < 2 ^ 53 := by exact_mod_cast hnormal.fits
  have hgrid : (10 : ℚ) ^ power * 10 ^ 17 ≤ significand * 2 ^ exponent := by
    rw [← hx, ← zpow_natCast (10 : ℚ) 17, ← zpow_add₀ (by norm_num)]
    exact hpower
  have hsmall : (significand : ℚ) * 2 ^ exponent < 2 ^ 53 * 2 ^ exponent :=
    mul_lt_mul_of_pos_right hfits htwo
  norm_num at hgrid hsmall ⊢
  linarith

/-- On the last grid the nearest point lies in the interval. -/
theorem contains_nearest (hnormal : IsNormal significand exponent) (hpos : 0 < significand)
    (hden : 0 < x.den) (hx : x.value = significand * 2 ^ exponent) {power : ℤ}
    (hpower : (10 : ℚ) ^ (power + 17) ≤ x.value) :
    (Interval.of significand exponent).contains (.ofDecimal
      (Binary64.roundDiv (x.num * (powerOver 10 power).2) (x.den * (powerOver 10 power).1)) power) =
        true := by
  obtain ⟨hlower, hupper⟩ := nearest_bounds hden power
  generalize Binary64.roundDiv _ _ = nearest at hlower hupper ⊢
  have hfine := step_lt_quarter hnormal hx hpower
  have htwo : (0 : ℚ) < 2 ^ exponent := by positivity
  have hten : (0 : ℚ) < 10 ^ power := by positivity
  have hlow : lowEnd significand exponent < nearest * 10 ^ power := by
    unfold lowEnd
    split
    · rw [sub_mul, ← hx]
      linarith
    · rw [sub_mul, ← hx]
      linarith
  have hhigh : nearest * 10 ^ power < highEnd significand exponent := by
    rw [highEnd, add_mul, ← hx]
    linarith
  rw [contains_of_iff hpos (Ratio.den_ofDecimal_pos _ _), Ratio.value_ofDecimal]
  split
  · exact ⟨hlow.le, hhigh.le⟩
  · exact ⟨hlow, hhigh⟩

/-- Zeros at the end do not count for the value. -/
theorem value_dropZeros (digits : ℕ) (power : ℤ) :
    (Ratio.ofDecimal (dropZeros digits power).1 (dropZeros digits power).2).value =
      (Ratio.ofDecimal digits power).value := by
  fun_induction dropZeros digits power with
  | case1 digits power h _ ih =>
    have hdigits : (digits : ℚ) = (digits / 10 : ℕ) * 10 := by
      have : digits = digits / 10 * 10 := by omega
      exact_mod_cast this
    rw [ih, Ratio.value_ofDecimal, Ratio.value_ofDecimal, hdigits, zpow_add_one₀ (by norm_num)]
    ring
  | case2 => rfl

/-- The fewest digits of a number lie in its interval. -/
theorem contains_decimal (hnormal : IsNormal significand exponent) (hpos : 0 < significand) :
    (Interval.of significand exponent).contains
      (.ofDecimal (decimal significand exponent).1 (decimal significand exponent).2) = true := by
  set x := Ratio.ofBinary significand exponent with hx
  have hden : 0 < x.den := Ratio.den_ofBinary_pos _ _
  have hvalue : x.value = significand * 2 ^ exponent := Ratio.value_ofBinary _ _
  have hnum : 0 < x.num := Nat.mul_pos hpos (powerOver_pos two_pos exponent).1
  have hsearch : (Interval.of significand exponent).contains
      (.ofDecimal (search (.of significand exponent) x (pointPosition x - 1) 18).1
        (search (.of significand exponent) x (pointPosition x - 1) 18).2) = true := by
    refine contains_of_search ⟨17, by norm_num, onGrid?_ne_none ?_⟩
    apply contains_nearest hnormal hpos hden hvalue
    rw [Nat.cast_ofNat, sub_add_cancel]
    exact pointPosition_bounds hnum hden
  unfold decimal
  rw [contains_congr hpos (Ratio.den_ofDecimal_pos _ _) (Ratio.den_ofDecimal_pos _ _)
    (value_dropZeros _ _)]
  exact hsearch

end Shortest

end HostKit
