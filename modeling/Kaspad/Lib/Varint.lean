import Mathlib.Tactic.NormNum

/-! # Base-128 numbers

Seven bits in a byte, lowest first; all bytes but the last have their highest bit set.
-/

namespace Lib.Varint

def encode : ℕ → ℕ → List UInt8
  | 0, n => [UInt8.ofNat n]
  | more + 1, n => if n < 128 then [UInt8.ofNat n] else UInt8.ofNat (n % 128 + 128) :: encode more (n / 128)

def decode : List UInt8 → Option ℕ
  | [] => none
  | b :: l => if b.toNat < 128 then if l = [] then some b.toNat else none
    else (decode l).map fun n => b.toNat - 128 + 128 * n

theorem decode_low {n : ℕ} (h : n < 128) : decode [UInt8.ofNat n] = some n := by
  have hn := UInt8.toNat_ofNat_of_lt' (h.trans (by norm_num))
  rw [decode, hn, if_pos h, if_pos rfl]

theorem decode_encode {more n : ℕ} (h : n < 128 ^ (more + 1)) : decode (encode more n) = some n := by
  induction more generalizing n with
  | zero => exact decode_low (by simpa using h)
  | succ more ih =>
    rw [encode]
    by_cases hlow : n < 128
    · rw [if_pos hlow, decode_low hlow]
    have hhead := UInt8.toNat_ofNat_of_lt' (show n % 128 + 128 < 256 by omega)
    have htail : n / 128 < 128 ^ (more + 1) := by
      rw [pow_succ] at h
      omega
    rw [if_neg hlow, decode, hhead, if_neg (by omega), ih htail, Option.map_some]
    congr 1
    omega

end Lib.Varint
