import Kaspad.Difficulty
import Kaspad.Transaction
import Mathlib.Tactic.Positivity

/-! # The required difficulty

`requiredDifficultyFromTargetsWindow` of `domain/consensus/processes/difficultymanager` with `blockwindow.go`: the
average target of a window without its first block, scaled by the time that the window took. The first block is the
least by time, blue work and hash, so that the order of the window does not matter.
-/

namespace Kaspad.DifficultyManager
open Difficulty List

structure DifficultyBlock where
  timeInMilliseconds : ℤ
  bits : ℕ
  hash : DomainHash
  blueWork : ℕ
  time_lt : timeInMilliseconds < 2 ^ 63
  deriving DecidableEq

structure Manager where
  powMax : ℤ
  difficultyAdjustmentWindowSize : ℕ
  disableDifficultyAdjustment : Bool
  targetTimePerBlock : ℤ
  genesisBits : ℕ

def ghostdagLess (a b : DifficultyBlock) : Prop :=
  a.blueWork < b.blueWork ∨ a.blueWork = b.blueWork ∧ a.hash < b.hash

/-- The test of the loop: the block comes before the first one so far, at `minIndex`, whose time is `min`. -/
def isFirst (window : List DifficultyBlock) (min : ℤ) (minIndex : ℕ) (block : DifficultyBlock) : Prop :=
  block.timeInMilliseconds < min ∨ block.timeInMilliseconds = min ∧ ∃ b ∈ window[minIndex]?, ghostdagLess block b

instance (window : List DifficultyBlock) (min : ℤ) (minIndex : ℕ) (block : DifficultyBlock) :
    Decidable (isFirst window min minIndex block) := by
  unfold isFirst ghostdagLess
  infer_instance

def minMaxLoop (window : List DifficultyBlock) : ℕ → List DifficultyBlock → ℤ × ℤ × ℕ → ℤ × ℤ × ℕ
  | _, [], found => found
  | i, block :: rest, (min, max, minIndex) =>
    let max := if block.timeInMilliseconds > max then block.timeInMilliseconds else max
    if isFirst window min minIndex block then minMaxLoop window (i + 1) rest (block.timeInMilliseconds, max, i)
    else minMaxLoop window (i + 1) rest (min, max, minIndex)

def minMaxTimestamps (window : List DifficultyBlock) : ℤ × ℤ × ℕ := minMaxLoop window 0 window (2 ^ 63 - 1, 0, 0)

def remove (window : List DifficultyBlock) (n : ℕ) : List DifficultyBlock :=
  match window.getLast? with
  | none => []
  | some last => (window.set n last).dropLast

def averageTarget (window : List DifficultyBlock) : ℤ :=
  (window.map fun block => compactToBig block.bits).sum / window.length

/-- The time between the timestamps, a difference in 64 bits, is at least 1. -/
def newTarget (m : Manager) (window : List DifficultyBlock) : ℤ :=
  let (windowMinTimestamp, windowMaxTimeStamp, windowMinIndex) := minMaxTimestamps window
  let targetsWindow := remove window windowMinIndex
  averageTarget targetsWindow * max (Int.bmod (windowMaxTimeStamp - windowMinTimestamp) (2 ^ 64)) 1 /
    m.targetTimePerBlock / targetsWindow.length

/-- The division by a target time of zero panics. -/
def requiredDifficultyFromTargetsWindow (m : Manager) (targetsWindow : List DifficultyBlock) : Option ℕ :=
  if m.disableDifficultyAdjustment then some m.genesisBits
  else if targetsWindow.length < 2 ∨ targetsWindow.length < m.difficultyAdjustmentWindowSize then some m.genesisBits
  else if m.targetTimePerBlock = 0 then none
  else if newTarget m targetsWindow > m.powMax then some (bigToCompact m.powMax)
  else some (bigToCompact (newTarget m targetsWindow))

/-! ## The first block of a window -/

def Before (a b : DifficultyBlock) : Prop :=
  a.timeInMilliseconds < b.timeInMilliseconds ∨ a.timeInMilliseconds = b.timeInMilliseconds ∧ ghostdagLess a b

variable {b : DifficultyBlock}

theorem Before.trans_of_not {a c : DifficultyBlock} (h : Before a b) (hbc : ¬ Before c b) : ¬ Before c a := by
  grind [Before, ghostdagLess]

variable {window window' : List DifficultyBlock}

theorem minMaxLoop_spec {i : ℕ} {rest : List DifficultyBlock} (done : List DifficultyBlock)
    {max : ℤ} {minIndex : ℕ} (hsplit : window = done ++ rest) (hi : i = done.length)
    (hb : window[minIndex]? = some b) (hfirst : ∀ x ∈ done, ¬ Before x b) :
    ∃ b' minIndex', minMaxLoop window i rest (b.timeInMilliseconds, max, minIndex) =
        (b'.timeInMilliseconds, (rest.map (·.timeInMilliseconds)).foldl Max.max max, minIndex') ∧
      window[minIndex']? = some b' ∧ ∀ x ∈ window, ¬ Before x b' := by
  induction rest generalizing i done b max minIndex with
  | nil => exact ⟨b, minIndex, rfl, hb, by simpa [hsplit] using hfirst⟩
  | cons block rest ih =>
    have hmax : (if block.timeInMilliseconds > max then block.timeInMilliseconds else max) =
        Max.max max block.timeInMilliseconds := by
      rcases le_total block.timeInMilliseconds max with h | h <;> grind
    have hiff : isFirst window b.timeInMilliseconds minIndex block ↔ Before block b := by
      simp [isFirst, Before, hb]
    have hself : ¬ Before block block := by simp [Before, ghostdagLess]
    have hat : window[i]? = some block := by simp [hsplit, hi]
    simp only [minMaxLoop, hmax, map_cons, foldl_cons]
    split_ifs with h <;> rw [hiff] at h
    · refine ih (done ++ [block]) (by simp [hsplit]) (by simp [hi]) hat fun x hx => ?_
      obtain hx | rfl := by simpa using hx
      · exact h.trans_of_not (hfirst x hx)
      · exact hself
    refine ih (done ++ [block]) (by simp [hsplit]) (by simp [hi]) hb fun x hx => ?_
    obtain hx | rfl := by simpa using hx
    · exact hfirst x hx
    · exact h

theorem minMaxTimestamps_spec (hne : window ≠ []) : ∃ b minIndex, minMaxTimestamps window =
        (b.timeInMilliseconds, (window.map (·.timeInMilliseconds)).foldl Max.max 0, minIndex) ∧
      window[minIndex]? = some b ∧ ∀ x ∈ window, ¬ Before x b := by
  obtain ⟨first, rest, rfl⟩ := exists_cons_of_ne_nil hne
  have hlt := first.time_lt
  -- A first block with the greatest time does not pass the test, and is the one at the index 0 all the same.
  have hstart : minMaxTimestamps (first :: rest) = minMaxLoop (first :: rest) 1 rest
      (first.timeInMilliseconds, Max.max 0 first.timeInMilliseconds, 0) := by
    grind [minMaxTimestamps, minMaxLoop, isFirst, ghostdagLess]
  rw [hstart]
  exact minMaxLoop_spec [first] rfl rfl rfl (by simp [Before, ghostdagLess])

theorem remove_perm {n : ℕ} (h : window[n]? = some b) : window.Perm (b :: remove window n) := by
  obtain ⟨hn, rfl⟩ := List.getElem?_eq_some_iff.mp h
  have hsplit : window = window.take n ++ window[n] :: window.drop (n + 1) := by simp
  have hlength : (window.take n).length = n := by simpa using hn.le
  generalize window[n] = b, window.take n = before, window.drop (n + 1) = after at hsplit hlength
  subst hsplit hlength
  obtain rfl | ⟨after, last, rfl⟩ := eq_nil_or_concat' after
  · simp [remove, perm_append_singleton]
  have hlast : remove (before ++ b :: (after ++ [last])) before.length = before ++ last :: after := by
    have hassoc : ∀ x, before ++ x :: (after ++ [last]) = (before ++ x :: after) ++ [last] := by simp
    have hset : (before ++ b :: (after ++ [last])).set before.length last = before ++ last :: (after ++ [last]) := by simp
    have hget : (before ++ b :: (after ++ [last])).getLast? = some last := by rw [hassoc, List.getLast?_concat]
    simp only [remove, hget, hset]
    rw [hassoc, dropLast_concat]
  rw [hlast]
  exact perm_middle.trans (((perm_append_singleton last after).append_left before).cons b)

theorem first_unique (hnodup : (window.map (·.hash)).Nodup) {b' : DifficultyBlock} (hb : b ∈ window) (hb' : b' ∈ window)
    (hfirst : ∀ x ∈ window, ¬ Before x b) (hfirst' : ∀ x ∈ window, ¬ Before x b') : b = b' := by
  have hnot := hfirst b' hb'
  have hnot' := hfirst' b hb
  have hhash : b.hash = b'.hash := by grind [Before, ghostdagLess]
  exact inj_on_of_nodup_map hnodup hb hb' hhash

theorem newTarget_perm (m : Manager) (h : window.Perm window') (hnodup : (window.map (·.hash)).Nodup)
    (hne : window ≠ []) : newTarget m window = newTarget m window' := by
  obtain ⟨b, i, hmin, hb, hfirst⟩ := minMaxTimestamps_spec hne
  have hne' : window' ≠ [] := by
    rintro rfl
    exact hne h.eq_nil
  obtain ⟨b', i', hmin', hb', hfirst'⟩ := minMaxTimestamps_spec hne'
  obtain rfl := first_unique hnodup (mem_of_getElem? hb) (h.mem_iff.mpr (mem_of_getElem? hb')) hfirst
    fun x hx => hfirst' x (h.mem_iff.mp hx)
  have hrest := (((remove_perm hb).symm.trans h).trans (remove_perm hb')).cons_inv
  simp only [newTarget, averageTarget, hmin, hmin', hrest.length_eq, (hrest.map _).sum_eq, (h.map _).foldl_eq]

/-- The required difficulty does not depend on the order of the window. -/
theorem requiredDifficulty_perm (m : Manager) (h : window.Perm window') (hnodup : (window.map (·.hash)).Nodup) :
    requiredDifficultyFromTargetsWindow m window = requiredDifficultyFromTargetsWindow m window' := by
  unfold requiredDifficultyFromTargetsWindow
  rw [← h.length_eq]
  split_ifs with hdisabled hshort
  · rfl
  · rfl
  all_goals
    have hne : window ≠ [] := by
      rintro rfl
      simp at hshort
    simp_all [newTarget_perm m h hnodup hne]

def sampleManager (genesisBits : ℕ) : Manager := ⟨2 ^ 255 - 1, 2, false, 1000, genesisBits⟩

def sampleBlock (time : ℤ) (hash : DomainHash) (h : time < 2 ^ 63) : DifficultyBlock := ⟨time, 0x01010000, hash, 1, h⟩

theorem requiredDifficulty_perm_sample :
    requiredDifficultyFromTargetsWindow (sampleManager 0x01010000) [sampleBlock 5 1 (by decide), sampleBlock 5 2 (by decide)] =
      requiredDifficultyFromTargetsWindow (sampleManager 0x01010000)
        [sampleBlock 5 2 (by decide), sampleBlock 5 1 (by decide)] :=
  requiredDifficulty_perm _ (.swap _ _ _) (by decide)

/-! ## The range of the new target -/

theorem encoded_in_range {x powMax : ℤ} (hx : 0 < x) (hle : x ≤ powMax) (hpow : powMax < 2 ^ 256) :
    1 ≤ compactToBig (bigToCompact x) ∧ compactToBig (bigToCompact x) ≤ powMax ∧ 0 < calcWork (bigToCompact x) := by
  lift x to ℕ using hx.le
  have hlt : x < 2 ^ 256 := by exact_mod_cast hle.trans_lt hpow
  obtain ⟨t, ht, hpos, htx, -⟩ := decoded_bounds (by exact_mod_cast hx)
    (hlt.trans_le (pow_le_pow_right₀ (by decide) (by decide)))
  have hwork : 0 < 2 ^ 256 / (t + 1) := Nat.div_pos (by omega) (Nat.succ_pos t)
  simp only [calcWork, ht]
  rw [if_neg (by omega), Int.toNat_natCast]
  exact ⟨by omega, by omega, hwork⟩

theorem newTarget_nonneg {m : Manager} (htime : 0 < m.targetTimePerBlock)
    (htargets : ∀ b ∈ window, 0 < compactToBig b.bits) (hne : window ≠ []) : 0 ≤ newTarget m window := by
  obtain ⟨b, i, hmin, hb, -⟩ := minMaxTimestamps_spec hne
  have hsum : 0 ≤ ((remove window i).map fun block => compactToBig block.bits).sum := by
    refine sum_nonneg fun x hx => ?_
    obtain ⟨block, hblock, rfl⟩ := mem_map.mp hx
    exact (htargets block ((remove_perm hb).mem_iff.mpr (mem_cons_of_mem _ hblock))).le
  simp only [newTarget, averageTarget, hmin]
  positivity

/-- The average target of the window without its first block, times the time that the window took, is at least the time
that the other blocks should have taken. -/
def TargetSurvives (m : Manager) (window : List DifficultyBlock) : Prop :=
  ∀ first ∈ window, (∀ block ∈ window, ¬ Before block first) →
    let others : ℤ := window.length - 1
    let average := ((window.map fun block => compactToBig block.bits).sum - compactToBig first.bits) / others
    let latest := (window.map (·.timeInMilliseconds)).foldl max 0
    m.targetTimePerBlock * others ≤ average * max (Int.bmod (latest - first.timeInMilliseconds) (2 ^ 64)) 1

instance (m : Manager) (window : List DifficultyBlock) : Decidable (TargetSurvives m window) := by
  unfold TargetSurvives Before ghostdagLess
  infer_instance

theorem newTarget_pos_iff {m : Manager} (htime : 0 < m.targetTimePerBlock) (hnodup : (window.map (·.hash)).Nodup)
    (hlength : 2 ≤ window.length) : 0 < newTarget m window ↔ TargetSurvives m window := by
  have hne : window ≠ [] := ne_nil_of_length_pos (by omega)
  obtain ⟨first, i, hmin, hi, hfirst⟩ := minMaxTimestamps_spec hne
  have hperm := remove_perm hi
  have hsum : ((remove window i).map fun block => compactToBig block.bits).sum =
      (window.map fun block => compactToBig block.bits).sum - compactToBig first.bits := by
    rw [(hperm.map _).sum_eq, map_cons, sum_cons, add_sub_cancel_left]
  have hothers : ((remove window i).length : ℤ) = window.length - 1 := by
    rw [hperm.length_eq, length_cons]
    omega
  have hpos : (0 : ℤ) < window.length - 1 := by omega
  simp only [newTarget, averageTarget, hmin, hsum, hothers]
  -- Two quotients in a row are the quotient by the product.
  rw [Int.ediv_ediv_of_nonneg htime.le, ← Int.add_one_le_iff, zero_add, Int.le_ediv_iff_mul_le (by positivity), one_mul]
  refine ⟨fun h first' hmem' hfirst' => ?_, fun h => h first (mem_of_getElem? hi) hfirst⟩
  obtain rfl := first_unique hnodup (mem_of_getElem? hi) hmem' hfirst hfirst'
  exact h

/-- The bits decode to a target between 1 and `powMax` exactly if the quotients do not make the new target zero. -/
theorem requiredDifficulty_in_range_iff (m : Manager) (window : List DifficultyBlock) (hpow : 0 < m.powMax)
    (hpow' : m.powMax < 2 ^ 256) (htime : 0 < m.targetTimePerBlock) (hnodup : (window.map (·.hash)).Nodup)
    (htargets : ∀ b ∈ window, 0 < compactToBig b.bits ∧ compactToBig b.bits ≤ m.powMax) :
    ∃ bits, requiredDifficultyFromTargetsWindow m window = some bits ∧
      (1 ≤ compactToBig bits ∧ compactToBig bits ≤ m.powMax ∧ 0 < calcWork bits ↔
        if m.disableDifficultyAdjustment ∨ window.length < 2 ∨ window.length < m.difficultyAdjustmentWindowSize then
          1 ≤ compactToBig m.genesisBits ∧ compactToBig m.genesisBits ≤ m.powMax ∧ 0 < calcWork m.genesisBits
        else TargetSurvives m window) := by
  unfold requiredDifficultyFromTargetsWindow
  by_cases hgenesis :
      m.disableDifficultyAdjustment ∨ window.length < 2 ∨ window.length < m.difficultyAdjustmentWindowSize
  · refine ⟨m.genesisBits, ?_, by rw [if_pos hgenesis]⟩
    split_ifs <;> simp_all
  rw [if_neg hgenesis]
  obtain ⟨henabled, hlength⟩ := not_or.mp hgenesis
  have htwo : 2 ≤ window.length := not_lt.mp fun h => hlength (.inl h)
  rw [if_neg henabled, if_neg hlength, if_neg htime.ne', ← newTarget_pos_iff htime hnodup htwo]
  split_ifs with habove
  · exact ⟨_, rfl, iff_of_true (encoded_in_range hpow le_rfl hpow') (hpow.trans habove)⟩
  have hnonneg : 0 ≤ newTarget m window :=
    newTarget_nonneg htime (fun b hb => (htargets b hb).1) (ne_nil_of_length_pos (by omega))
  refine ⟨_, rfl, fun h => lt_of_le_of_ne hnonneg fun hzero => ?_, fun hpos => encoded_in_range hpos (by omega) hpow'⟩
  rw [← hzero] at h
  exact absurd h.1 (by decide)

/-- Two blocks with the target 1 and the same time: the new target is `1 * 1 / 1000 / 1`. -/
theorem requiredDifficulty_truncates_to_zero : compactToBig 0x01010000 = 1 ∧
      requiredDifficultyFromTargetsWindow (sampleManager 0x01010000)
        [sampleBlock 5 1 (by decide), sampleBlock 5 2 (by decide)] = some 0 ∧ compactToBig 0 = 0 ∧ calcWork 0 = 0 := by
  decide +kernel

/-- The same two blocks five seconds apart. -/
theorem requiredDifficulty_in_range_iff_adjusted : ∃ bits,
    requiredDifficultyFromTargetsWindow (sampleManager 0x01010000)
      [sampleBlock 5000 1 (by decide), sampleBlock 0 2 (by decide)] = some bits ∧ 0 < calcWork bits := by
  obtain ⟨bits, hbits, hiff⟩ := requiredDifficulty_in_range_iff (sampleManager 0x01010000)
    [sampleBlock 5000 1 (by decide), sampleBlock 0 2 (by decide)] (by decide) (by decide) (by decide) (by decide)
    (by decide +kernel)
  refine ⟨bits, hbits, (hiff.mpr ?_).2.2⟩
  rw [if_neg (by decide)]
  decide +kernel

end Kaspad.DifficultyManager
