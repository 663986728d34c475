import Mathlib.Data.UInt

/-! # Splitting a reachability interval

`interval.go` of `domain/consensus/processes/reachabilitymanager`: the split of an interval among subtrees of given
sizes. The bias that the floating-point fractions give to a part is arbitrary.
-/

namespace Kaspad.Reachability
open List

/-- Both ends belong to the interval; `stop` is the `End` of the source. -/
structure ReachabilityInterval where
  start : UInt64
  stop : UInt64

def intervalSize (ri : ReachabilityInterval) : UInt64 := ri.stop - ri.start + 1

inductive SplitError
  /-- "sum of sizes must be equal to the interval's size" -/
  | notEqual
  /-- "sum of sizes must be less than or equal to the interval's size" -/
  | tooLarge

def parts : UInt64 → List UInt64 → List ReachabilityInterval
  | _, [] => []
  | start, size :: sizes => ⟨start, start + size - 1⟩ :: parts (start + size) sizes

def intervalSplitExact (ri : ReachabilityInterval) (sizes : List UInt64) : Except SplitError (List ReachabilityInterval) :=
  if sizes.sum ≠ intervalSize ri then .error .notEqual else .ok (parts ri.start sizes)

/-- The loop over the fractions, `bias i` being the rounded product of the total bias and the `i`-th fraction. -/
def biasedSizes (bias : ℕ → UInt64) : ℕ → UInt64 → List UInt64 → List UInt64
  | _, _, [] => []
  | _, remainingBias, [size] => [size + remainingBias]
  | i, remainingBias, size :: next :: sizes =>
    let b := if bias i > remainingBias then remainingBias else bias i
    (size + b) :: biasedSizes bias (i + 1) (remainingBias - b) (next :: sizes)

variable (bias : UInt64 → List UInt64 → ℕ → UInt64)

def intervalSplitWithExponentialBias (ri : ReachabilityInterval) (sizes : List UInt64) :
    Except SplitError (List ReachabilityInterval) :=
  let sizesSum := sizes.sum
  if sizesSum > intervalSize ri then .error .tooLarge
  else if sizesSum = intervalSize ri then intervalSplitExact ri sizes
  else
    let totalBias := intervalSize ri - sizesSum
    intervalSplitExact ri (biasedSizes (bias totalBias sizes) 0 totalBias sizes)

/-- The intervals follow each other from `start` on, and `next` is the first number after them. -/
def Tiles : UInt64 → UInt64 → List ReachabilityInterval → Prop
  | start, next, [] => start = next
  | start, next, part :: rest => part.start = start ∧ Tiles (part.stop + 1) next rest

/-- The sum without the wrap of 64 bits. -/
def exactSum (sizes : List UInt64) : ℕ := (sizes.map UInt64.toNat).sum

theorem toNat_sum (sizes : List UInt64) : sizes.sum.toNat = exactSum sizes % 2 ^ 64 := by
  induction sizes with
  | nil => rfl
  | cons size sizes ih => simp [exactSum, ih]

theorem tiles_parts (start : UInt64) (sizes : List UInt64) : Tiles start (start + sizes.sum) (parts start sizes) := by
  induction sizes generalizing start with
  | nil => simp [parts, Tiles]
  | cons size sizes ih =>
    refine ⟨rfl, ?_⟩
    have hnext : start + size - 1 + 1 = start + size := by grind
    rw [hnext, sum_cons, ← UInt64.add_assoc]
    exact ih (start + size)

theorem map_intervalSize_parts (start : UInt64) (sizes : List UInt64) :
    (parts start sizes).map intervalSize = sizes := by
  induction sizes generalizing start with
  | nil => rfl
  | cons size sizes ih =>
    have hsize : start + size - 1 - start + 1 = size := by grind
    rw [parts, map_cons, ih, intervalSize, hsize]

theorem biasedSizes_spec (bias : ℕ → UInt64) {sizes : List UInt64} (hne : sizes ≠ []) (i : ℕ) (remainingBias : UInt64)
    (hfits : exactSum sizes + remainingBias.toNat < 2 ^ 64) :
    Forall₂ (· ≤ ·) sizes (biasedSizes bias i remainingBias sizes) ∧
      exactSum (biasedSizes bias i remainingBias sizes) = exactSum sizes + remainingBias.toNat := by
  induction sizes generalizing i remainingBias with
  | nil => exact absurd rfl hne
  | cons size sizes ih =>
    simp only [exactSum, map_cons, sum_cons] at hfits
    have hadd : ∀ b ≤ remainingBias, (size + b).toNat = size.toNat + b.toNat := fun b hb => by
      rw [UInt64.le_iff_toNat_le] at hb
      rw [UInt64.toNat_add, Nat.mod_eq_of_lt (by omega)]
    have hle : ∀ b ≤ remainingBias, size ≤ size + b := fun b hb => by
      rw [UInt64.le_iff_toNat_le, hadd b hb]
      omega
    cases sizes with
    | nil => simpa [biasedSizes, exactSum, hadd] using hle _ (UInt64.le_refl _)
    | cons next sizes =>
      have hclamp : (if bias i > remainingBias then remainingBias else bias i) ≤ remainingBias := by
        split_ifs <;> grind
      rw [biasedSizes]
      generalize (if bias i > remainingBias then remainingBias else bias i) = b at hclamp ⊢
      have hleft := UInt64.toNat_sub_of_le _ _ hclamp
      rw [UInt64.le_iff_toNat_le] at hclamp
      obtain ⟨hsizes, hsum⟩ := ih (cons_ne_nil _ _) (i + 1) (remainingBias - b)
        (by simp only [exactSum]; omega)
      refine ⟨.cons (hle b hclamp) hsizes, ?_⟩
      simp only [exactSum, map_cons, sum_cons] at hsum ⊢
      rw [hsum, hadd b hclamp, hleft]
      omega

/-- The parts tile the interval, and each is as large as was asked. -/
theorem split_spec (ri : ReachabilityInterval) {sizes : List UInt64} (hne : sizes ≠ [])
    (hsum : exactSum sizes ≤ (intervalSize ri).toNat) :
    ∃ parts, intervalSplitWithExponentialBias bias ri sizes = .ok parts ∧ Tiles ri.start (ri.stop + 1) parts ∧
      Forall₂ (fun size part => size ≤ intervalSize part) sizes parts ∧
      exactSum (parts.map intervalSize) = (intervalSize ri).toNat ∧
      (exactSum sizes = (intervalSize ri).toNat → parts.map intervalSize = sizes) := by
  have hlt := (intervalSize ri).toNat_lt
  have htoNat : sizes.sum.toNat = exactSum sizes := by rw [toNat_sum, Nat.mod_eq_of_lt (by omega)]
  have hle : sizes.sum ≤ intervalSize ri := UInt64.le_iff_toNat_le.mpr (htoNat ▸ hsum)
  obtain ⟨l, hsplit, hsizes, hl, hsame⟩ : ∃ l, intervalSplitWithExponentialBias bias ri sizes = intervalSplitExact ri l ∧
      Forall₂ (· ≤ ·) sizes l ∧ exactSum l = (intervalSize ri).toNat ∧
      (exactSum sizes = (intervalSize ri).toNat → l = sizes) := by
    unfold intervalSplitWithExponentialBias
    dsimp only
    rw [if_neg (UInt64.not_lt.mpr hle)]
    split_ifs with heq
    · exact ⟨sizes, rfl, forall₂_same.mpr fun _ _ => UInt64.le_refl _, by rw [← htoNat, heq], fun _ => rfl⟩
    have hbias := UInt64.toNat_sub_of_le _ _ hle
    obtain ⟨hsizes, hbiased⟩ := biasedSizes_spec (bias (intervalSize ri - sizes.sum) sizes) hne 0
      (intervalSize ri - sizes.sum) (by omega)
    exact ⟨_, rfl, hsizes, by omega, fun h => absurd (UInt64.toNat_inj.mp (htoNat.trans h)) heq⟩
  have hl' : l.sum = intervalSize ri := UInt64.toNat_inj.mp (by rw [toNat_sum, hl, Nat.mod_eq_of_lt hlt])
  have hnext : ri.start + l.sum = ri.stop + 1 := by grind [intervalSize]
  have hmap := map_intervalSize_parts ri.start l
  refine ⟨parts ri.start l, hsplit.trans (if_neg (not_not.mpr hl')), hnext ▸ tiles_parts ri.start l, ?_, ?_, ?_⟩
  · rwa [← forall₂_map_right_iff, hmap]
  · rw [hmap, hl]
  · rwa [hmap]

theorem split_spec_two : ∃ parts, intervalSplitWithExponentialBias (fun _ _ _ => 4) ⟨1, 10⟩ [2, 3] = .ok parts ∧
    Forall₂ (fun size part => size ≤ intervalSize part) [2, 3] parts := by
  obtain ⟨parts, hsplit, -, hsizes, -⟩ := split_spec (fun _ _ _ => 4) ⟨1, 10⟩ (cons_ne_nil 2 [3]) (by decide)
  exact ⟨parts, hsplit, hsizes⟩

end Kaspad.Reachability
