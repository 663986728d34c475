import Mathlib.Algebra.Order.Ring.Nat
import Mathlib.Data.Int.Bitwise

/-! # Difficulty targets and work

`CompactToBig`, `BigToCompact` and `CalcWork` of `util/difficulty/difficulty.go`. A compact target is a
base 256 exponent `e` and a mantissa `m` of 23 bits, and stands for `m * 2 ^ (8 * e) / 2 ^ 24`; what
`BigToCompact` packs for `n` is `e = n.size / 8 + 1` and `n * 2 ^ 24 / 2 ^ (8 * e)`.
-/

namespace Kaspad.Difficulty
open Nat

def compactToBig (compact : ℕ) : ℤ :=
  let mantissa := compact &&& 0x007fffff
  let isNegative := compact &&& 0x00800000 ≠ 0
  let exponent := compact >>> 24
  let magnitude : ℕ :=
    if exponent ≤ 3 then mantissa >>> (8 * (3 - exponent)) else mantissa <<< (8 * (exponent - 3))
  if isNegative then -magnitude else magnitude

/-- `BigToCompact`. The number of bytes is the one of the absolute value, as are the words of `Bits`. -/
def bigToCompact (n : ℤ) : ℕ :=
  if n = 0 then 0
  else
    let exponent := (n.natAbs.size + 7) / 8
    let mantissa :=
      if exponent ≤ 3 then (n.natAbs % 2 ^ 32) <<< (8 * (3 - exponent)) % 2 ^ 32
      else (n >>> (8 * (exponent - 3))).natAbs % 2 ^ 32
    let packed :=
      if mantissa &&& 0x00800000 ≠ 0 then (exponent + 1) <<< 24 % 2 ^ 32 ||| mantissa >>> 8
      else exponent <<< 24 % 2 ^ 32 ||| mantissa
    if n < 0 then packed ||| 0x00800000 else packed

/-- `CalcWork`: the expected number of hashes, zero for a target that is not positive. -/
def calcWork (bits : ℕ) : ℕ :=
  let difficultyNum := compactToBig bits
  if difficultyNum ≤ 0 then 0 else 2 ^ 256 / (difficultyNum.toNat + 1)

/-! ## Exponent and mantissa -/

theorem mul_pow_div_pow (a x y : ℕ) : a * 2 ^ x / 2 ^ y = if y ≤ x then a <<< (x - y) else a >>> (y - x) := by
  split_ifs with h
  · rw [Nat.shiftLeft_eq, ← Nat.sub_add_cancel h, Nat.pow_add, ← Nat.mul_assoc, Nat.mul_div_cancel _ (Nat.two_pow_pos y),
      Nat.add_sub_cancel]
  rw [Nat.shiftRight_eq_div_pow, ← Nat.sub_add_cancel (Nat.le_of_not_le h), Nat.pow_add, Nat.add_sub_cancel,
    Nat.mul_div_mul_right _ _ (Nat.two_pow_pos x)]

theorem and_bit_ne_zero_iff {x : ℕ} : x &&& 0x00800000 ≠ 0 ↔ x / 2 ^ 23 % 2 = 1 := by
  rw [show 0x00800000 = 2 ^ 23 from rfl, and_two_pow, testBit_eq_decide_div_mod_eq]
  simp

theorem compactToBig_eq {e m : ℕ} (hm : m < 2 ^ 23) :
    compactToBig (e * 2 ^ 24 + m) = (m * 2 ^ (8 * e) / 2 ^ 24 : ℕ) := by
  have hmantissa : (e * 2 ^ 24 + m) &&& 0x007fffff = m := by
    rw [show 0x007fffff = 2 ^ 23 - 1 from rfl, and_two_pow_sub_one_eq_mod]
    omega
  have hexponent : (e * 2 ^ 24 + m) >>> 24 = e := by
    rw [Nat.shiftRight_eq_div_pow]
    omega
  have hsign : ¬ ((e * 2 ^ 24 + m) &&& 0x00800000 ≠ 0) := by
    rw [and_bit_ne_zero_iff]
    omega
  simp only [compactToBig, hmantissa, hexponent, hsign, if_false, mul_pow_div_pow, ← Nat.mul_sub 8 _ 3,
    ← Nat.mul_sub 8 3, show 24 = 8 * 3 from rfl, Nat.mul_le_mul_left_iff (show 0 < 8 by decide)]
  rcases Nat.lt_trichotomy e 3 with h | rfl | h
  · rw [if_pos h.le, if_neg (by omega)]
  · rfl
  · rw [if_neg (by omega), if_pos h.le]

section
variable {n : ℕ} (hn : 0 < n)
include hn

theorem bounds_of_exponent : 2 ^ (8 * (n.size / 8 + 1)) ≤ n * 2 ^ 9 ∧ n * 2 < 2 ^ (8 * (n.size / 8 + 1)) := by
  constructor
  · have hpred := lt_size.mp (sub_lt (size_pos.mpr hn) Nat.one_pos)
    refine (Nat.pow_le_pow_right (show 0 < 2 by decide) (show _ ≤ n.size - 1 + 9 by omega)).trans ?_
    rw [Nat.pow_add]
    exact mul_le_mul_right _ hpred
  rw [mul_comm]
  refine lt_of_lt_of_le (Nat.mul_lt_mul_of_pos_left n.lt_size_self (show 0 < 2 by decide)) ?_
  rw [← pow_succ']
  exact Nat.pow_le_pow_right (by decide) (by omega)

theorem mantissa_bounds : 2 ^ 15 ≤ n * 2 ^ 24 / 2 ^ (8 * (n.size / 8 + 1)) ∧
    n * 2 ^ 24 / 2 ^ (8 * (n.size / 8 + 1)) < 2 ^ 23 := by
  obtain ⟨hlow, hhigh⟩ := bounds_of_exponent hn
  rw [Nat.le_div_iff_mul_le (Nat.two_pow_pos _), Nat.div_lt_iff_lt_mul (Nat.two_pow_pos _)]
  omega

omit hn in
theorem pack_eq {e m : ℕ} (he : e ≤ 255) (hm : m < 2 ^ 23) : e <<< 24 % 2 ^ 32 ||| m = e * 2 ^ 24 + m := by
  rw [Nat.shiftLeft_eq, Nat.mod_eq_of_lt (by omega), ← Nat.shiftLeft_eq,
    ← shiftLeft_add_eq_or_of_lt (by omega), Nat.shiftLeft_eq]

omit hn in
theorem first_mantissa_eq {b : ℕ} (hb : n < 2 ^ (8 * b)) : n * 2 ^ 24 / 2 ^ (8 * b) < 2 ^ 24 ∧
      (if b ≤ 3 then (n % 2 ^ 32) <<< (8 * (3 - b)) % 2 ^ 32 else ((n : ℤ) >>> (8 * (b - 3))).natAbs % 2 ^ 32) =
        n * 2 ^ 24 / 2 ^ (8 * b) := by
  have hlt : n * 2 ^ 24 / 2 ^ (8 * b) < 2 ^ 24 := by
    rw [Nat.div_lt_iff_lt_mul (Nat.two_pow_pos _), mul_comm]
    exact Nat.mul_lt_mul_of_pos_left hb (Nat.two_pow_pos 24)
  refine ⟨hlt, ?_⟩
  rw [mul_pow_div_pow] at hlt ⊢
  split_ifs with h h' h'
  · have hsmall := hb.trans_le (Nat.pow_le_pow_right (by decide) h')
    rw [if_pos h'] at hlt
    rw [Nat.mod_eq_of_lt (hsmall.trans (by decide)), Nat.mul_sub, Nat.mod_eq_of_lt (hlt.trans (by decide))]
  · omega
  · omega
  · rw [if_neg h'] at hlt
    rw [← Int.natCast_shiftRight, Int.natAbs_natCast, Nat.mul_sub, Nat.mod_eq_of_lt (hlt.trans (by decide))]

theorem bigToCompact_eq (hlt : n < 2 ^ (8 * 254)) :
    bigToCompact n = (n.size / 8 + 1) * 2 ^ 24 + n * 2 ^ 24 / 2 ^ (8 * (n.size / 8 + 1)) := by
  have hsize := size_le.mpr hlt
  have hpos := size_pos.mpr hn
  obtain ⟨hlow, hhigh⟩ := mantissa_bounds hn
  obtain ⟨hfirst, heq⟩ := first_mantissa_eq (show n < 2 ^ (8 * ((n.size + 7) / 8)) from size_le.mp (by omega))
  simp only [bigToCompact, Int.natAbs_natCast, heq, Int.natCast_eq_zero, hn.ne', Int.not_ofNat_neg, if_false]
  rw [if_congr and_bit_ne_zero_iff rfl rfl]
  rcases Nat.eq_zero_or_pos (n.size % 8) with hfull | hpart
  · -- The top byte has its sign bit, and the mantissa moves by one byte.
    have hshift : (n * 2 ^ 24 / 2 ^ (8 * ((n.size + 7) / 8))) >>> 8 = n * 2 ^ 24 / 2 ^ (8 * (n.size / 8 + 1)) := by
      rw [Nat.shiftRight_eq_div_pow, Nat.div_div_eq_div_mul, ← Nat.pow_add]
      congr 2
      omega
    have hbits := hshift
    rw [Nat.shiftRight_eq_div_pow] at hbits
    rw [if_pos (by omega), hshift, show (n.size + 7) / 8 = n.size / 8 by omega, pack_eq (by omega) hhigh]
  · have hexponent : (n.size + 7) / 8 = n.size / 8 + 1 := by omega
    rw [hexponent, if_neg (by omega), pack_eq (by omega) hhigh]

theorem decoded_eq (hlt : n < 2 ^ (8 * 254)) : ∃ t : ℕ, compactToBig (bigToCompact n) = t ∧ (t = n ∨
      t * 2 ^ 24 = n * 2 ^ 24 / 2 ^ (8 * (n.size / 8 + 1)) * 2 ^ (8 * (n.size / 8 + 1))) := by
  refine ⟨_, by rw [bigToCompact_eq hn hlt, compactToBig_eq (mantissa_bounds hn).2], ?_⟩
  rcases le_total (8 * (n.size / 8 + 1)) 24 with h | h
  · left
    rw [Nat.div_mul_cancel (Dvd.dvd.mul_left (Nat.pow_dvd_pow 2 h) n), Nat.mul_div_cancel _ (Nat.two_pow_pos 24)]
  right
  exact Nat.div_mul_cancel (Dvd.dvd.mul_left (Nat.pow_dvd_pow 2 h) _)

end

theorem decoded_bounds {n : ℕ} (hn : 0 < n) (hlt : n < 2 ^ (8 * 254)) :
    ∃ t : ℕ, compactToBig (bigToCompact n) = t ∧ 0 < t ∧ t ≤ n ∧ n - t < n / 2 ^ 15 + 1 ∧
      bigToCompact t = bigToCompact n := by
  obtain ⟨t, ht, heq⟩ := decoded_eq hn hlt
  refine ⟨t, ht, ?_⟩
  rcases heq with rfl | heq
  · exact ⟨hn, le_rfl, by omega, rfl⟩
  have hbound := (bounds_of_exponent hn).1
  have hpow := Nat.two_pow_pos (8 * (n.size / 8 + 1))
  have hmod := div_add_mod' (n * 2 ^ 24) (2 ^ (8 * (n.size / 8 + 1)))
  have hrest := mod_lt (n * 2 ^ 24) hpow
  have hmantissa := mul_le_mul_right (2 ^ (8 * (n.size / 8 + 1))) (mantissa_bounds hn).1
  rw [← heq] at hmod hmantissa
  have hpos : 0 < t := by omega
  have hle : t ≤ n := by omega
  refine ⟨hpos, hle, by omega, ?_⟩
  -- The top bits are those of `n`, and so is the exponent.
  have hexponent : t.size / 8 = n.size / 8 := by
    have hsizes := size_le_size hle
    rcases Nat.eq_zero_or_pos (n.size / 8) with hzero | hbytes
    · omega
    have hsplit : 2 ^ (8 * (n.size / 8 + 1)) = 2 ^ (8 * (n.size / 8) - 1) * 2 ^ 9 := by
      rw [← Nat.pow_add]
      congr 1
      omega
    have hsize := lt_size.mpr (show 2 ^ (8 * (n.size / 8) - 1) ≤ t by omega)
    omega
  rw [bigToCompact_eq hpos (hle.trans_lt hlt), bigToCompact_eq hn hlt, hexponent, heq, Nat.mul_div_cancel _ hpow]

theorem bigToCompact_mono {n m : ℕ} (h : n ≤ m) (hlt : m < 2 ^ (8 * 254)) : bigToCompact n ≤ bigToCompact m := by
  obtain rfl | hn := Nat.eq_zero_or_pos n
  · exact zero_le _
  have hexponents : n.size / 8 ≤ m.size / 8 := Nat.div_le_div_right (size_le_size h)
  have hmantissa := (mantissa_bounds hn).2
  have hmantissa' := (mantissa_bounds (hn.trans_le h)).1
  rw [bigToCompact_eq hn (h.trans_lt hlt), bigToCompact_eq (hn.trans_le h) hlt]
  rcases hexponents.lt_or_eq with hless | hsame
  · omega
  rw [hsame]
  exact Nat.add_le_add_left (Nat.div_le_div_right (mul_le_mul_right _ h)) _

/-- The compact form rounds down, by less than one part in `2 ^ 15`, is monotone, and is its own compact form. -/
theorem bigToCompact_rounds (n m : ℕ) (hnm : n < m) (hlt : m < 2 ^ (8 * 254)) :
    ∃ t : ℕ, compactToBig (bigToCompact n) = t ∧ t ≤ n ∧ n - t < n / 2 ^ 15 + 1 ∧
      bigToCompact n ≤ bigToCompact m ∧ bigToCompact t = bigToCompact n := by
  have hmono := bigToCompact_mono hnm.le hlt
  obtain rfl | hn := Nat.eq_zero_or_pos n
  · exact ⟨0, rfl, le_rfl, succ_pos _, hmono, rfl⟩
  obtain ⟨t, ht, -, hle, herror, hsame⟩ := decoded_bounds hn (hnm.trans hlt)
  exact ⟨t, ht, hle, herror, hmono, hsame⟩

theorem bigToCompact_rounds_sample : ∃ t : ℕ, compactToBig (bigToCompact 0x123456789) = t ∧ t ≤ 0x123456789 := by
  obtain ⟨t, ht, hle, -⟩ := bigToCompact_rounds 0x123456789 0x12345678a (by decide)
    (lt_of_lt_of_le (show 0x12345678a < 2 ^ 40 by decide) (pow_le_pow_right₀ (by decide) (by decide)))
  exact ⟨t, ht, hle⟩

end Kaspad.Difficulty
