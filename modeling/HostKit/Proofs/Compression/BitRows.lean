import HostKit.Compression.Bits
import Mathlib.Algebra.Group.Nat.Defs

/-!
# Bits and the numbers and bytes they make up

A number is read back from as many bits as it needs. Bits that are packed into bytes are found in
them again, followed by fewer than eight zeros that fill up the last byte; taking up reading at the
next full byte drops exactly these zeros.
-/

namespace HostKit.Bits

/-! ## Numbers -/

/-- A number has as many bits as were asked for. -/
theorem length_ofNat (width n : Nat) : (ofNat width n).length = width := by
  induction width generalizing n with
  | zero => rfl
  | succ width ih => rw [ofNat, List.length_cons, ih]

/-- The lowest bit and the others make up the number. -/
theorem toNat_lowest (n : Nat) : (n % 2 == 1).toNat + 2 * (n / 2) = n := by
  rcases Nat.mod_two_eq_zero_or_one n with h | h
  · simp only [h, show ((0 : Nat) == 1) = false from rfl, Bool.toNat_false]
    omega
  · simp only [h, beq_self_eq_true, Bool.toNat_true]
    omega

/-- A number is read back from its bits. -/
theorem takeNat?_ofNat {width n : Nat} (h : n < 2 ^ width) (rest : Bits) :
    takeNat? width (ofNat width n ++ rest) = some (n, rest) := by
  induction width generalizing n with
  | zero =>
    obtain rfl : n = 0 := by simpa using h
    rfl
  | succ width ih =>
    have hhalf : n / 2 < 2 ^ width := by
      rw [Nat.pow_succ] at h
      omega
    rw [ofNat, List.cons_append, takeNat?, ih hhalf, Option.map_some]
    dsimp only
    rw [toNat_lowest]

/-- The value of the bits of a number is the number. -/
theorem toNat_ofNat {width n : Nat} (h : n < 2 ^ width) : toNat (ofNat width n) = n := by
  induction width generalizing n with
  | zero =>
    obtain rfl : n = 0 := by simpa using h
    rfl
  | succ width ih =>
    have hhalf : n / 2 < 2 ^ width := by
      rw [Nat.pow_succ] at h
      omega
    rw [ofNat, toNat, ih hhalf, toNat_lowest]

/-- The value of some bits is below the power of two that they can tell apart. -/
theorem toNat_lt (bits : Bits) : toNat bits < 2 ^ bits.length := by
  induction bits with
  | nil => exact Nat.one_pos
  | cons b bits ih =>
    have hbit : b.toNat ≤ 1 := Bool.toNat_le b
    rw [toNat, List.length_cons, Nat.pow_succ]
    omega

/-- Zero has no bits set. -/
theorem ofNat_zero (width : Nat) : ofNat width 0 = List.replicate width false := by
  induction width with
  | zero => rfl
  | succ width ih => rw [ofNat, List.replicate_succ, Nat.zero_div, ih]; rfl

/-- The bits of the value of some bits are those bits, with zeros up to the width. -/
theorem ofNat_toNat {width : Nat} {bits : Bits} (h : bits.length ≤ width) :
    ofNat width (toNat bits) = bits ++ List.replicate (width - bits.length) false := by
  induction bits generalizing width with
  | nil => exact ofNat_zero width
  | cons b bits ih =>
    cases width with
    | zero => exact absurd h (Nat.not_succ_le_zero _)
    | succ width =>
      have hhead : ((b.toNat + 2 * toNat bits) % 2 == 1) = b := by
        cases b <;> simp [Nat.add_mod]
      have htail : (b.toNat + 2 * toNat bits) / 2 = toNat bits := by
        have hbit : b.toNat ≤ 1 := Bool.toNat_le b
        omega
      rw [toNat, ofNat, hhead, htail, ih (Nat.le_of_succ_le_succ h), List.length_cons,
        Nat.succ_sub_succ, List.cons_append]

/-- The bits of a number are its lower ones and then those of what is above them. -/
theorem ofNat_add (width width' n : Nat) :
    ofNat (width + width') n = ofNat width n ++ ofNat width' (n / 2 ^ width) := by
  induction width generalizing n with
  | zero => simp [ofNat]
  | succ width ih =>
    rw [Nat.succ_add, ofNat, ofNat, ih, Nat.div_div_eq_div_mul, Nat.pow_succ, Nat.mul_comm 2]
    rfl

/-- Only the lower part of a number has a place in its bits. -/
theorem ofNat_mod (width n : Nat) : ofNat width (n % 2 ^ width) = ofNat width n := by
  induction width generalizing n with
  | zero => rfl
  | succ width ih =>
    have hlow : n % 2 ^ (width + 1) % 2 = n % 2 :=
      Nat.mod_mod_of_dvd n (Nat.pow_dvd_pow 2 (Nat.succ_le_succ (Nat.zero_le width)))
    have hhigh : n % 2 ^ (width + 1) / 2 = n / 2 % 2 ^ width := by
      rw [Nat.pow_succ, Nat.mul_comm, Nat.mod_mul_right_div_self]
    rw [ofNat, ofNat, hlow, hhigh, ih]

/-! ## Bytes -/

@[simp] theorem ofBytes_cons (b : UInt8) (data : Bytes) :
    ofBytes (b :: data) = ofNat 8 b.toNat ++ ofBytes data := rfl

@[simp] theorem ofBytes_append (data data' : Bytes) :
    ofBytes (data ++ data') = ofBytes data ++ ofBytes data' := List.flatMap_append

/-- Eight bits come from each byte. -/
theorem length_ofBytes (data : Bytes) : (ofBytes data).length = 8 * data.length := by
  induction data with
  | nil => rfl
  | cons b data ih =>
    rw [ofBytes_cons, List.length_append, length_ofNat, ih, List.length_cons]
    omega

/-- The bytes of some bits have these bits, and then fewer than eight more. -/
theorem exists_ofBytes_toBytes (bits : Bits) :
    ∃ filling, filling.length < 8 ∧ ofBytes (toBytes bits) = bits ++ filling := by
  induction bits using toBytes.induct with
  | case1 => exact ⟨[], by decide, by rw [toBytes]; rfl⟩
  | case2 b bits ih =>
    have hvalue := toNat_lt ((b :: bits).take 8)
    have hlength : ((b :: bits).take 8).length ≤ 8 := List.length_take_le 8 _
    have hbound : toNat ((b :: bits).take 8) < 2 ^ 8 :=
      Nat.lt_of_lt_of_le hvalue (Nat.pow_le_pow_right (by decide) hlength)
    have hbyte : (toNat ((b :: bits).take 8)).toUInt8.toNat = toNat ((b :: bits).take 8) :=
      UInt8.toNat_ofNat_of_lt' hbound
    obtain ⟨filling, hfilling, hlater⟩ := ih
    rw [toBytes, ofBytes_cons, hbyte, ofNat_toNat hlength]
    by_cases hfull : 8 ≤ (b :: bits).length
    · -- A full byte: its bits are the first eight, and the others follow.
      have htake : ((b :: bits).take 8).length = 8 := List.length_take_of_le hfull
      have hsplit : (b :: bits).take 8 ++ bits.drop 7 = b :: bits := List.take_append_drop 8 _
      refine ⟨filling, hfilling, ?_⟩
      rw [htake, hlater, ← List.append_assoc, List.append_assoc ((b :: bits).take 8),
        Nat.sub_self, List.replicate_zero, List.nil_append, hsplit]
    · -- The last byte: zeros take the places of the missing bits.
      have hdrop : bits.drop 7 = [] := List.drop_eq_nil_of_le (by simp at hfull; omega)
      have htake : (b :: bits).take 8 = b :: bits := List.take_of_length_le (by omega)
      refine ⟨List.replicate (8 - (b :: bits).length) false, ?_, ?_⟩
      · rw [List.length_replicate, List.length_cons]
        omega
      · rw [htake, hdrop, toBytes]
        simp [ofBytes]

/-- From the next full byte on, the bits that fill up the byte before it are dropped. -/
theorem align_append_ofBytes {filling : Bits} (h : filling.length < 8) (data : Bytes) :
    align (filling ++ ofBytes data) = ofBytes data := by
  have hlength : (filling ++ ofBytes data).length % 8 = filling.length := by
    rw [List.length_append, length_ofBytes]
    omega
  rw [align, hlength, List.drop_left]

end HostKit.Bits
