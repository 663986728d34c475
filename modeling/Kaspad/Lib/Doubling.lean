import Mathlib.Algebra.Group.Nat.Defs
import Mathlib.Data.Nat.Size
import Mathlib.Data.List.Basic
import Mathlib.Order.Nat

/-! # Points at doubling distances

The points `hi`, `hi - 1`, `hi - 3`, `hi - 7`, … above `lo`, and `lo` itself. The number of binary
digits of the distance does not grow, and it stays the same only for a distance of `2 ^ k - 1` that is
followed by one of `2 ^ (k - 1)`, which is why `zoomBound` falls in every round.
-/

namespace Lib.Doubling
open List Nat

def points (lo hi : ℕ) : List ℕ := (List.range (hi - lo).size).map (fun j => hi + 1 - 2 ^ j) ++ [lo]

theorem length_points (lo hi : ℕ) : (points lo hi).length = (hi - lo).size + 1 := by simp [points]

theorem points_self (lo : ℕ) : points lo lo = [lo] := by simp [points]

theorem getLast?_points (lo hi : ℕ) : (points lo hi).getLast? = some lo := by simp [points]

variable {lo hi : ℕ} (h : lo ≤ hi)
include h

theorem head?_points : (points lo hi).head? = some hi := by
  obtain rfl | hlt := h.eq_or_lt
  · rw [points_self]
    rfl
  have hpos : 0 < (hi - lo).size := size_pos.mpr (by omega)
  obtain ⟨k, hk⟩ : ∃ k, (hi - lo).size = k + 1 := ⟨_, (succ_pred_eq_of_pos hpos).symm⟩
  simp [points, hk, range_succ_eq_map]

variable {i : ℕ}

theorem mem_points (hi' : i ∈ points lo hi) : lo ≤ i ∧ i ≤ hi := by
  rw [points, mem_append, mem_map, mem_singleton] at hi'
  obtain ⟨j, hj, rfl⟩ | rfl := hi'
  · have hle := lt_size.mp (mem_range.mp hj)
    have hpos := Nat.two_pow_pos j
    omega
  · exact ⟨le_rfl, h⟩

variable {before after : List ℕ}

theorem points_gap {i' : ℕ} (hpoints : points lo hi = before ++ i :: i' :: after) :
    2 ^ before.length ≤ hi - lo ∧ i' < i ∧ (i - i' = 2 ^ before.length ∧ 2 ^ (before.length + 1) ≤ hi - lo ∨
        i - i' = hi - lo + 1 - 2 ^ before.length ∧ hi - lo < 2 ^ (before.length + 1)) := by
  have hlen := congrArg List.length hpoints
  rw [length_points] at hlen
  simp only [length_append, length_cons] at hlen
  have hk : before.length < (hi - lo).size := by omega
  have hpow := lt_size.mp hk
  have hfirst : (points lo hi)[before.length]? = some i := by simp [hpoints]
  have hsecond : (points lo hi)[before.length + 1]? = some i' := by simp [hpoints]
  have hi' : i = hi + 1 - 2 ^ before.length := by
    rw [points, List.getElem?_append_left (by simpa using hk)] at hfirst
    simpa [List.getElem?_range hk] using hfirst.symm
  have hpos := Nat.two_pow_pos before.length
  refine ⟨hpow, ?_⟩
  by_cases hnext : before.length + 1 < (hi - lo).size
  · have hpow' := lt_size.mp hnext
    rw [points, List.getElem?_append_left (by simpa using hnext)] at hsecond
    have hsecond' : i' = hi + 1 - 2 ^ (before.length + 1) := by simpa [List.getElem?_range hnext] using hsecond.symm
    rw [Nat.pow_succ] at hpow' hsecond' ⊢
    omega
  have hlast : (hi - lo).size = before.length + 1 := by omega
  have hlt := size_le.mp hlast.le
  rw [points, List.getElem?_append_right (by simp [hlast])] at hsecond
  have hsecond' : i' = lo := by simpa [hlast] using hsecond.symm
  omega

omit h

def zoomBound (d : ℕ) : ℕ := if 2 ^ (d.size - 1) = d then 2 * d.size else 2 * d.size + 1

theorem le_zoomBound (d : ℕ) : 2 * d.size ≤ zoomBound d := by
  unfold zoomBound
  split_ifs <;> omega

theorem zoomBound_le (d : ℕ) : zoomBound d ≤ 2 * d.size + 1 := by
  unfold zoomBound
  split_ifs <;> omega

theorem zoomBound_two_pow (k : ℕ) : zoomBound (2 ^ k) = 2 * (k + 1) := by simp [zoomBound, size_pow]

include h in
theorem zoomBound_gap_lt {i' : ℕ} (hpoints : points lo hi = before ++ i :: i' :: after)
    (hgap : 2 ≤ i - i') : zoomBound (i - i') < zoomBound (hi - lo) := by
  obtain ⟨hk, -, ⟨hd, hnext⟩ | ⟨hd, hlast⟩⟩ := points_gap h hpoints
  · have hsize := lt_size.mpr hnext
    have hle := le_zoomBound (hi - lo)
    rw [hd, zoomBound_two_pow]
    omega
  have hsize := le_antisymm (size_le.mpr hlast) (lt_size.mpr hk)
  rw [Nat.pow_succ] at hlast
  rcases (show i - i' ≤ 2 ^ before.length by omega).lt_or_eq with hless | heq
  · have hsmall := size_le.mpr hless
    have hupper := zoomBound_le (i - i')
    have hlower := le_zoomBound (hi - lo)
    omega
  · -- The distance was `2 ^ (n + 1) - 1`, which is no power of two.
    rw [heq, zoomBound_two_pow, zoomBound, hsize, Nat.add_sub_cancel, if_neg (by omega)]
    omega

end Lib.Doubling
