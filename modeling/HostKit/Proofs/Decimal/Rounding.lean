import HostKit.Decimal.Shortest
import Mathlib

/-!
# Rounding to binary floating point numbers

The arithmetic on natural numbers is compared with that of the rationals. A quotient rounds to the
integer that is at most one half away from it, and to the even one of two such integers. A ratio is
first scaled to the exponent at which it uses all 53 bits, or to the least exponent if that one is
larger, so what it rounds to is always in the form that a number has only once. The numbers around a
floating point number that round to it are those of its interval; where the exponent changes at the
number, the part of the interval below it is half as wide, and such a ratio is rounded at the
exponent below and carries over.
-/

namespace HostKit.Binary64

open Shortest (Ratio Interval)

/-! ## Quotients -/

/-- A rational is rounded to a natural number, with ties going to the even one. -/
def Rounds (x : ℚ) (m : ℕ) : Prop :=
  if m % 2 = 0 then |x - m| ≤ 1 / 2 else |x - m| < 1 / 2

/-- What is less than one half away is rounded to the number. -/
theorem Rounds.of_lt {x : ℚ} {m : ℕ} (h : |x - m| < 1 / 2) : Rounds x m := by
  unfold Rounds
  split
  · exact h.le
  · exact h

/-- What rounds to a number is at most one half away from it. -/
theorem Rounds.le {x : ℚ} {m : ℕ} (h : Rounds x m) : |x - m| ≤ 1 / 2 := by
  unfold Rounds at h
  split at h
  · exact h
  · exact h.le

/-- Nothing is rounded to two numbers. -/
theorem Rounds.unique {x : ℚ} {m n : ℕ} (hm : Rounds x m) (hn : Rounds x n) : m = n := by
  wlog hle : m ≤ n generalizing m n
  · exact (this hn hm (Nat.le_of_not_le hle)).symm
  obtain ⟨-, hmx⟩ := abs_le.mp hm.le
  obtain ⟨hxn, -⟩ := abs_le.mp hn.le
  have hnear : (n : ℚ) ≤ m + 1 := by linarith
  have hnear : n ≤ m + 1 := by exact_mod_cast hnear
  rcases Nat.lt_or_ge m n with hlt | hge
  · -- Both are one half away, but only one of two neighbours is even.
    obtain rfl : n = m + 1 := by omega
    push_cast at hxn
    unfold Rounds at hm hn
    rcases Nat.mod_two_eq_zero_or_one m with heven | hodd
    · rw [if_neg (by omega), abs_lt] at hn
      push_cast at hn
      linarith [hn.1]
    · rw [if_neg (by omega), abs_lt] at hm
      linarith [hm.2]
  · omega

/-- The quotient as it is rounded. -/
theorem rounds_roundDiv {num den : ℕ} (hden : 0 < den) :
    Rounds ((num : ℚ) / den) (roundDiv num den) := by
  have hpos : (0 : ℚ) < den := by exact_mod_cast hden
  have hdiv : (num : ℚ) / den = (num / den : ℕ) + (num % den : ℕ) / den := by
    have hmod : (num : ℚ) = den * (num / den : ℕ) + (num % den : ℕ) := by
      exact_mod_cast (Nat.div_add_mod num den).symm
    rw [hmod, add_div, mul_div_cancel_left₀ _ hpos.ne']
  have hrest : ((num % den : ℕ) : ℚ) / den < 1 := by
    rw [div_lt_one hpos]
    exact_mod_cast Nat.mod_lt num hden
  have hnonneg : 0 ≤ ((num % den : ℕ) : ℚ) / den := by positivity
  have hhalf : 2 * (num % den) < den ↔ ((num % den : ℕ) : ℚ) / den < 1 / 2 := by
    rw [div_lt_div_iff₀ hpos two_pos]
    norm_cast
    omega
  have hhalf' : den < 2 * (num % den) ↔ 1 / 2 < ((num % den : ℕ) : ℚ) / den := by
    rw [div_lt_div_iff₀ two_pos hpos]
    norm_cast
    omega
  rw [hdiv]
  unfold roundDiv
  dsimp only
  split
  · next hlow =>
    rw [hhalf] at hlow
    apply Rounds.of_lt
    rw [add_sub_cancel_left, abs_of_nonneg hnonneg]
    exact hlow
  split
  · next hhigh =>
    rw [hhalf'] at hhigh
    apply Rounds.of_lt
    rw [abs_lt]
    push_cast
    constructor <;> linarith
  · next hlow hhigh =>
    -- A tie: the even one of the two neighbours is taken.
    rw [hhalf, not_lt] at hlow
    rw [hhalf', not_lt] at hhigh
    have heq := le_antisymm hhigh hlow
    rw [heq]
    unfold Rounds
    rw [if_pos (by omega)]
    rcases Nat.mod_two_eq_zero_or_one (num / den) with heven | hodd
    · rw [heven, abs_le]
      constructor <;> push_cast <;> linarith
    · rw [hodd, abs_le]
      constructor <;> push_cast <;> linarith

/-- A quotient is rounded to a number exactly if the rational is. -/
theorem roundDiv_eq_iff {num den m : ℕ} (hden : 0 < den) :
    roundDiv num den = m ↔ Rounds ((num : ℚ) / den) m := by
  have h := @rounds_roundDiv num den hden
  constructor
  · intro heq
    rw [← heq]
    exact h
  · exact h.unique

/-! ## Powers -/

/-- A power as a fraction has a positive denominator. -/
theorem powerOver_pos {base : ℕ} (hbase : 0 < base) (e : ℤ) :
    0 < (powerOver base e).1 ∧ 0 < (powerOver base e).2 :=
  ⟨Nat.pow_pos hbase, Nat.pow_pos hbase⟩

/-- A power as a fraction is the power. -/
theorem powerOver_div {base : ℕ} (hbase : 0 < base) (e : ℤ) :
    ((powerOver base e).1 : ℚ) / (powerOver base e).2 = (base : ℚ) ^ e := by
  have hne : (base : ℚ) ≠ 0 := by exact_mod_cast hbase.ne'
  change ((base ^ e.toNat : ℕ) : ℚ) / (base ^ (-e).toNat : ℕ) = _
  push_cast
  rw [div_eq_iff (pow_ne_zero _ hne), ← zpow_natCast, ← zpow_natCast, ← zpow_add₀ hne]
  congr 1
  omega

/-- The ratio divided by a power of two is rounded as the rational is. -/
theorem significandAt_eq_iff {num den m : ℕ} (hden : 0 < den) (e : ℤ) :
    significandAt num den e = m ↔ Rounds ((num : ℚ) / den / 2 ^ e) m := by
  obtain ⟨habove, hbelow⟩ := powerOver_pos two_pos e
  have hpower := powerOver_div two_pos e
  unfold significandAt
  dsimp only
  rw [roundDiv_eq_iff (Nat.mul_pos hden habove)]
  have hne : ((powerOver 2 e).2 : ℚ) ≠ 0 := by exact_mod_cast hbelow.ne'
  have hne' : ((powerOver 2 e).1 : ℚ) ≠ 0 := by exact_mod_cast habove.ne'
  have hden' : (den : ℚ) ≠ 0 := by exact_mod_cast hden.ne'
  have heq : ((num * (powerOver 2 e).2 : ℕ) : ℚ) / (den * (powerOver 2 e).1 : ℕ) =
      (num : ℚ) / den / 2 ^ e := by
    rw [show (2 : ℚ) = (2 : ℕ) by norm_num, ← hpower]
    push_cast
    field_simp
  rw [heq]

/-! ## The exponent -/

/-- How many integers have at most 53 bits. -/
theorem size_fiftyThree : Word.size 53 = 2 ^ 53 := by norm_num [Word.size]

/-- The least integer that uses all 53 bits, as a power. -/
theorem minNormal_eq : minNormal = 2 ^ 52 := by norm_num [minNormal, Word.size]

/-- A power of two at which a positive number uses all 53 bits. -/
def IsScale (x : ℚ) (e : ℤ) : Prop := 2 ^ 52 ≤ x / 2 ^ e ∧ x / 2 ^ e < 2 ^ 53

/-- An exponent at which a number has at most 53 bits is not below the one at which it uses all. -/
theorem IsScale.le_of_lt {x : ℚ} {e other : ℤ} (h : IsScale x e) (hother : x / 2 ^ other < 2 ^ 53) :
    e ≤ other := by
  by_contra hlt
  have hpos : (0 : ℚ) < 2 ^ e := by positivity
  have hx : (2 : ℚ) ^ 52 * 2 ^ e ≤ x := (le_div_iff₀ hpos).mp h.1
  have hx' : x < 2 ^ 53 * 2 ^ other := (div_lt_iff₀ (by positivity)).mp hother
  have hstep : (2 : ℚ) ^ other * 2 ≤ 2 ^ e := by
    rw [← zpow_add_one₀ two_ne_zero]
    exact zpow_le_zpow_right₀ (by norm_num) (by omega)
  have hlast : (2 : ℚ) ^ 53 * 2 ^ other ≤ 2 ^ 52 * 2 ^ e := by
    have := mul_le_mul_of_nonneg_left hstep (by positivity : (0 : ℚ) ≤ 2 ^ 52)
    linarith
  linarith

/-- A number uses all 53 bits at one power of two only. -/
theorem IsScale.unique {x : ℚ} {e other : ℤ} (h : IsScale x e) (hother : IsScale x other) :
    e = other :=
  le_antisymm (h.le_of_lt hother.2) (hother.le_of_lt h.2)

/-- Whether a ratio reaches a power of two, by the fraction of the power. -/
theorem powerOver_mul_le_iff {num den : ℕ} (hden : 0 < den) (bits : ℕ) (e : ℤ) :
    den * (powerOver 2 e).1 * 2 ^ bits ≤ num * (powerOver 2 e).2 ↔
      (2 : ℚ) ^ bits ≤ num / den / 2 ^ e := by
  obtain ⟨habove, hbelow⟩ := powerOver_pos two_pos e
  have hden' : (0 : ℚ) < den := by exact_mod_cast hden
  have habove' : (0 : ℚ) < (powerOver 2 e).1 := by exact_mod_cast habove
  have hbelow' : (0 : ℚ) < (powerOver 2 e).2 := by exact_mod_cast hbelow
  have hpower := powerOver_div two_pos e
  rw [Nat.cast_two] at hpower
  rw [← hpower, div_div_div_eq, le_div_iff₀ (by positivity)]
  have hcomm : (2 : ℚ) ^ bits * (den * (powerOver 2 e).1) = den * (powerOver 2 e).1 * 2 ^ bits :=
    mul_comm _ _
  rw [hcomm]
  norm_cast

/-- The size of a ratio by the sizes of its parts. -/
theorem ratio_bounds {num den : ℕ} (hnum : 0 < num) (hden : 0 < den) :
    (2 : ℚ) ^ ((num.log2 : ℤ) - den.log2 - 1) < num / den ∧
      (num : ℚ) / den < 2 ^ ((num.log2 : ℤ) - den.log2 + 1) := by
  have hden' : (0 : ℚ) < den := by exact_mod_cast hden
  have hnumLow : (2 : ℚ) ^ num.log2 ≤ num := by exact_mod_cast Nat.log2_self_le hnum.ne'
  have hnumHigh : (num : ℚ) < 2 ^ (num.log2 + 1) := by exact_mod_cast Nat.lt_log2_self
  have hdenLow : (2 : ℚ) ^ den.log2 ≤ den := by exact_mod_cast Nat.log2_self_le hden.ne'
  have hdenHigh : (den : ℚ) < 2 ^ (den.log2 + 1) := by exact_mod_cast Nat.lt_log2_self
  constructor
  · calc (2 : ℚ) ^ ((num.log2 : ℤ) - den.log2 - 1)
        = 2 ^ num.log2 / 2 ^ (den.log2 + 1) := by
          rw [← zpow_natCast, ← zpow_natCast, ← zpow_sub₀ two_ne_zero]
          congr 1
          push_cast
          ring
      _ < num / den := div_lt_div₀' hnumLow hdenHigh (by positivity) hden'
  · calc (num : ℚ) / den < 2 ^ (num.log2 + 1) / 2 ^ den.log2 :=
          div_lt_div₀ hnumHigh hdenLow (by positivity) (by positivity)
      _ = 2 ^ ((num.log2 : ℤ) - den.log2 + 1) := by
          rw [← zpow_natCast, ← zpow_natCast, ← zpow_sub₀ two_ne_zero]
          congr 1
          push_cast
          ring

/-- The exponent from the sizes of the parts is the one at which the ratio uses all 53 bits. -/
theorem isScale_scaleOf {num den : ℕ} (hnum : 0 < num) (hden : 0 < den) :
    IsScale ((num : ℚ) / den) (scaleOf num den) := by
  obtain ⟨hlow, hhigh⟩ := ratio_bounds hnum hden
  have hreaches := @powerOver_mul_le_iff num den hden 53
  unfold scaleOf
  dsimp only
  rw [size_fiftyThree]
  generalize (num.log2 : ℤ) - (den.log2 : ℤ) = difference at hlow hhigh ⊢
  split
  · next h =>
    have hfull := (hreaches _).mp h
    rw [le_div_iff₀ (by positivity)] at hfull
    constructor
    · rw [le_div_iff₀ (by positivity)]
      calc (2 : ℚ) ^ 52 * 2 ^ (difference - 53 + 1) = 2 ^ 53 * 2 ^ (difference - 53) := by
            rw [zpow_add_one₀ two_ne_zero, pow_succ (2 : ℚ) 52, mul_assoc, mul_comm (2 : ℚ)]
        _ ≤ (num : ℚ) / den := hfull
    · rw [div_lt_iff₀ (by positivity)]
      calc (num : ℚ) / den < 2 ^ (difference + 1) := hhigh
        _ = 2 ^ 53 * 2 ^ (difference - 53 + 1) := by
            rw [← zpow_natCast (2 : ℚ) 53, ← zpow_add₀ two_ne_zero]
            congr 1
            push_cast
            ring
  · next h =>
    have hfull := (hreaches _).not.mp h
    rw [not_le] at hfull
    refine ⟨?_, hfull⟩
    rw [le_div_iff₀ (by positivity)]
    calc (2 : ℚ) ^ 52 * 2 ^ (difference - 53) = 2 ^ (difference - 1) := by
          rw [← zpow_natCast (2 : ℚ) 52, ← zpow_add₀ two_ne_zero]
          congr 1
          push_cast
          ring
      _ ≤ (num : ℚ) / den := hlow.le

/-! ## The form of a number -/

/-- The integer and the exponent of a finite number in the form that it has only once. -/
structure IsNormal (significand : ℕ) (exponent : ℤ) : Prop where
  fits : significand < 2 ^ 53
  least : minExponent ≤ exponent
  greatest : exponent ≤ maxExponent
  full : 2 ^ 52 ≤ significand ∨ exponent = minExponent

/-- A number is in the form that it has only once. -/
def IsCanonical : Binary64 → Prop
  | nan | infinite _ => True
  | finite _ significand exponent => IsNormal significand exponent

/-- A rounded integer with its exponent is brought into the form. -/
theorem isCanonical_carried {negative : Bool} {significand : ℕ} {exponent : ℤ}
    (hleast : minExponent ≤ exponent) (hle : significand ≤ 2 ^ 53)
    (hfull : 2 ^ 52 ≤ significand ∨ exponent = minExponent) :
    (carried negative significand exponent).IsCanonical := by
  unfold carried bounded
  rw [size_fiftyThree, minNormal_eq]
  split
  · split
    · trivial
    · exact ⟨by norm_num, by omega, by omega, .inl le_rfl⟩
  split
  · trivial
  · exact ⟨by omega, hleast, by omega, hfull⟩

/-- What a ratio rounds to is in the form that a number has only once. -/
theorem isCanonical_ofRatio (negative : Bool) (num : ℕ) {den : ℕ} (hden : 0 < den) :
    (ofRatio negative num den).IsCanonical := by
  rcases Nat.eq_zero_or_pos num with rfl | hnum
  · exact ⟨by norm_num, le_rfl, by decide, .inr rfl⟩
  rw [ofRatio, if_neg hnum.ne']
  have hscale := isScale_scaleOf hnum hden
  generalize scaleOf num den = scale at hscale ⊢
  dsimp only
  set e := max scale minExponent with he
  have hx : (0 : ℚ) ≤ (num : ℚ) / den := by positivity
  have hround : Rounds ((num : ℚ) / den / 2 ^ e) (significandAt num den e) :=
    (significandAt_eq_iff hden e).mp rfl
  have hnear := abs_le.mp hround.le
  have hsmall : (num : ℚ) / den / 2 ^ e < 2 ^ 53 := by
    apply lt_of_le_of_lt _ hscale.2
    apply div_le_div_of_nonneg_left hx (by positivity)
    exact zpow_le_zpow_right₀ (by norm_num) (le_max_left _ _)
  apply isCanonical_carried (le_max_right _ _)
  · have : (significandAt num den e : ℚ) < 2 ^ 53 + 1 := by linarith
    have : significandAt num den e < 2 ^ 53 + 1 := by exact_mod_cast this
    omega
  · rcases le_total scale minExponent with hlow | hhigh
    · exact .inr (max_eq_right hlow)
    · left
      rw [he, max_eq_left hhigh] at hnear
      have : (2 : ℚ) ^ 52 < significandAt num den e + 1 := by
        rw [he, max_eq_left hhigh]
        linarith [hscale.1]
      have : 2 ^ 52 < significandAt num den e + 1 := by exact_mod_cast this
      omega

/-- What a decimal rounds to is in the form that a number has only once. -/
theorem isCanonical_ofDecimal (negative : Bool) (digits : ℕ) (exponent : ℤ) :
    (ofDecimal negative digits exponent).IsCanonical := by
  have hzero : (zero negative).IsCanonical := ⟨by norm_num, le_rfl, by decide, .inr rfl⟩
  unfold ofDecimal
  dsimp only
  split
  · exact hzero
  split
  · trivial
  split
  · exact hzero
  · exact isCanonical_ofRatio _ _ (powerOver_pos (by norm_num) _).2

end HostKit.Binary64
