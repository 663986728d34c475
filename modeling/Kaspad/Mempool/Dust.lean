import Kaspad.Mempool.SpentIndex

/-! # Dust

`IsTransactionOutputDust` multiplies the value by 1000 before it divides, and the product may wrap.
-/

namespace Kaspad.Mempool

/-- The rate in natural numbers, without the wrap of 64 bits. -/
def exactDustRate (output : DomainTransactionOutput) : ℕ :=
  output.value * 1000 / (3 * (transactionOutputEstimatedSerializedSize output + 148))

def Setup.withRelayFee (S : Setup) (fee : ℕ) : Setup :=
  { S with config := { S.config with minimumRelayTransactionFee := fee } }

/-- The check is the exact comparison exactly where a thousand times the value does not wrap. -/
theorem dust_exact_iff (S : Setup) {output : DomainTransactionOutput}
    (hspendable : S.isUnspendable output.scriptPublicKey.script = false)
    (hscript : output.scriptPublicKey.script.length < 2 ^ 62) :
    (∀ fee < 2 ^ 64, isTransactionOutputDust (S.withRelayFee fee) output =
      decide (exactDustRate output < fee)) ↔ output.value * 1000 < 2 ^ 64 := by
  have hdust : ∀ fee, isTransactionOutputDust (S.withRelayFee fee) output = decide (exactDustRate output < fee) ↔
      (output.value * 1000 % 2 ^ 64 / (3 * (transactionOutputEstimatedSerializedSize output + 148)) < fee ↔
        exactDustRate output < fee) := by
    intro fee
    rw [isTransactionOutputDust, if_neg (by simp [Setup.withRelayFee, hspendable])]
    exact decide_eq_decide
  simp only [hdust]
  unfold exactDustRate
  refine ⟨fun h => ?_, fun h fee _ => by rw [Nat.mod_eq_of_lt h]⟩
  -- At a fee just above the wrapped rate the two sides differ.
  by_contra hwraps
  have hsize : 3 * (transactionOutputEstimatedSerializedSize output + 148) ≤ 2 ^ 64 := by
    unfold transactionOutputEstimatedSerializedSize
    omega
  have hsizes : 1 < 3 * (transactionOutputEstimatedSerializedSize output + 148) := by omega
  generalize 3 * (transactionOutputEstimatedSerializedSize output + 148) = size at h hsize hsizes
  have hsmall : output.value * 1000 % 2 ^ 64 / size ≤ output.value * 1000 % 2 ^ 64 / 2 :=
    Nat.div_le_div_left hsizes (by decide)
  have hlt := (h _ (by omega)).mp (Nat.lt_succ_self _)
  have hle : output.value * 1000 % 2 ^ 64 + size ≤ output.value * 1000 := by omega
  have hdiv := Nat.div_le_div_right (c := size) hle
  rw [Nat.add_div_right _ (by omega)] at hdiv
  omega

theorem dust_exact_iff_small : isTransactionOutputDust (sampleSetup.withRelayFee 1000) ⟨600, ⟨[], 0⟩⟩ =
    decide (exactDustRate ⟨600, ⟨[], 0⟩⟩ < 1000) :=
  (dust_exact_iff sampleSetup rfl (by decide)).mpr (by decide) 1000 (by decide)

/-- One more sompi makes an output dust. -/
theorem larger_output_is_dust : 18446744073709552 ≤ maxSompi ∧
    isTransactionOutputDust (sampleSetup.withRelayFee 1000) ⟨18446744073709551, ⟨[], 0⟩⟩ = false ∧
    isTransactionOutputDust (sampleSetup.withRelayFee 1000) ⟨18446744073709552, ⟨[], 0⟩⟩ = true ∧
    ¬ exactDustRate ⟨18446744073709552, ⟨[], 0⟩⟩ < 1000 := by
  decide

end Kaspad.Mempool
