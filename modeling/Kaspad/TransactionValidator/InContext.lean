import Kaspad.TransactionValidator.InIsolation

/-! # Validation of a transaction in context

`transaction_in_context.go` of `domain/consensus/processes/transactionvalidator`: the checks that need the
UTXO entries that the inputs spend and the DAA score of the block from which they are looked at.
-/

namespace Kaspad
open Lib List

abbrev PopulatedInput := DomainTransactionInput × Option UTXOEntry

def toInt64 (n : ℤ) : ℤ := n.bmod (2 ^ 64)

def sequenceLockTimeDisabled : ℕ := 2 ^ 63

def sequenceLockTimeMask : ℕ := 0x00000000ffffffff

def missingOutpoints (inputs : List PopulatedInput) : List DomainOutpoint :=
  (inputs.filter (·.2.isNone)).map (·.1.previousOutpoint)

namespace TransactionValidator
variable (v : TransactionValidator)

def checkCoinbaseMaturity (povDAAScore : ℕ) : List PopulatedInput → Except RuleError Unit
  | [] => .ok ()
  | (_, none) :: inputs => checkCoinbaseMaturity povDAAScore inputs
  | (input, some utxoEntry) :: inputs =>
    let originDAAScore := utxoEntry.blockDAAScore
    if utxoEntry.isCoinbase ∧ (originDAAScore + v.blockCoinbaseMaturity) % 2 ^ 64 > povDAAScore then
      let o := input.previousOutpoint
      .error (.rule .immatureSpend
        s!"tried to spend coinbase transaction output ({o.transactionID}: {o.index}) from DAA score {originDAAScore} to DAA score {povDAAScore} before required maturity of {v.blockCoinbaseMaturity}")
    else checkCoinbaseMaturity povDAAScore inputs

def checkTransactionCoinbaseMaturity (povDAAScore : ℕ) (inputs : List PopulatedInput) : Except RuleError Unit := do
  v.checkCoinbaseMaturity povDAAScore inputs
  if missingOutpoints inputs ≠ [] then .error (.missingTxOut (missingOutpoints inputs))

def checkEntryAmounts (entry : UTXOEntry) (totalSompiInBefore : ℕ) : Except RuleError ℕ :=
  let totalSompiInAfter := (totalSompiInBefore + entry.amount) % 2 ^ 64
  if totalSompiInAfter < totalSompiInBefore ∨ totalSompiInAfter > maxSompi then
    .error (.rule .badTxOutValue
      s!"total value of all transaction inputs is {totalSompiInBefore} which is higher than max allowed value of {maxSompi}")
  else .ok totalSompiInAfter

def checkInputAmounts : ℕ → List PopulatedInput → Except RuleError ℕ
  | totalSompiIn, [] => .ok totalSompiIn
  | totalSompiIn, (_, none) :: inputs => checkInputAmounts totalSompiIn inputs
  | totalSompiIn, (_, some utxoEntry) :: inputs => do
    let totalSompiIn ← checkEntryAmounts utxoEntry totalSompiIn
    checkInputAmounts totalSompiIn inputs

def checkTransactionInputAmounts (inputs : List PopulatedInput) : Except RuleError ℕ := do
  let totalSompiIn ← checkInputAmounts 0 inputs
  if missingOutpoints inputs ≠ [] then .error (.missingTxOut (missingOutpoints inputs))
  else .ok totalSompiIn

def checkTransactionOutputAmounts (tx : DomainTransaction) (totalSompiIn : ℕ) : Except RuleError ℕ :=
  let totalSompiOut := tx.outputs.foldl (fun total output => (total + output.value) % 2 ^ 64) 0
  if totalSompiIn < totalSompiOut then
    .error (.rule .spendTooHigh
      s!"total value of all transaction inputs for the transaction is {totalSompiIn} which is less than the amount spent of {totalSompiOut}")
  else .ok totalSompiOut

def sequenceLockOf : ℤ → List PopulatedInput → ℤ
  | lock, [] => lock
  | lock, (_, none) :: inputs => sequenceLockOf lock inputs
  | lock, (input, some utxoEntry) :: inputs =>
    let sequenceNum := input.sequence
    if sequenceNum &&& sequenceLockTimeDisabled = sequenceLockTimeDisabled then sequenceLockOf lock inputs
    else
      let relativeLock := sequenceNum &&& sequenceLockTimeMask
      let blockDAAScore := toInt64 (toInt64 utxoEntry.blockDAAScore + relativeLock - 1)
      sequenceLockOf (if blockDAAScore > lock then blockDAAScore else lock) inputs

def calcTxSequenceLockFromReferencedUTXOEntries (tx : DomainTransaction) (inputs : List PopulatedInput) :
    Except RuleError ℤ :=
  if isCoinBase tx then .ok (-1)
  else if missingOutpoints inputs ≠ [] then .error (.missingTxOut (missingOutpoints inputs))
  else .ok (sequenceLockOf (-1) inputs)

def sequenceLockActive (lock : ℤ) (blockDAAScore : ℕ) : Bool := ¬ lock ≥ toInt64 blockDAAScore

def checkTransactionSequenceLock (povDAAScore : ℕ) (tx : DomainTransaction) (inputs : List PopulatedInput) :
    Except RuleError Unit := do
  let lock ← calcTxSequenceLockFromReferencedUTXOEntries tx inputs
  if !sequenceLockActive lock povDAAScore then
    .error (.rule .unfinalizedTx "block contains transaction whose input sequence locks are not met")

/-- A nil entry would be dereferenced; the checks before refuse it. -/
def validateSigOpCounts : ℕ → List PopulatedInput → Except RuleError Unit
  | _, [] => .ok ()
  | _, (input, none) :: _ => .error (.missingTxOut [input.previousOutpoint])
  | i, (input, some utxoEntry) :: inputs =>
    let sigOpCount := v.sigOpCount input.signatureScript utxoEntry.scriptPublicKey
    if sigOpCount ≠ input.sigOpCount then
      .error (.rule .wrongSigOpCount
        s!"input {i} specifies SigOpCount {input.sigOpCount} while actual SigOpCount is {sigOpCount}")
    else validateSigOpCounts (i + 1) inputs

def validateScripts (tx : DomainTransaction) (utxoEntries : List (Option UTXOEntry)) :
    ℕ → List PopulatedInput → Except RuleError Unit
  | _, [] => .ok ()
  | i, (_, none) :: inputs => validateScripts tx utxoEntries (i + 1) inputs
  | i, (input, some utxoEntry) :: inputs =>
    let o := input.previousOutpoint
    match v.executeScript tx utxoEntries i utxoEntry.scriptPublicKey with
    | .error (.malformed message) =>
      .error (.rule .scriptMalformed
        s!"failed to parse input {i} which references output ({o.transactionID}: {o.index}) - {message}")
    | .error (.failed message) =>
      .error (.rule .scriptValidation
        s!"failed to validate input {i} which references output ({o.transactionID}: {o.index}) - {message}")
    | .ok () => validateScripts tx utxoEntries (i + 1) inputs

def validateTransactionScripts (tx : DomainTransaction) (utxoEntries : List (Option UTXOEntry))
    (inputs : List PopulatedInput) : Except RuleError Unit := do
  v.validateScripts tx utxoEntries 0 inputs
  if missingOutpoints inputs ≠ [] then .error (.missingTxOut (missingOutpoints inputs))

def validateTransactionInContextAndPopulateFee (povDAAScore : ℕ) (tx : DomainTransaction)
    (utxoEntries : List (Option UTXOEntry)) : Except RuleError ℕ := do
  let inputs := tx.inputs.zip utxoEntries
  v.checkTransactionCoinbaseMaturity povDAAScore inputs
  let totalSompiIn ← checkTransactionInputAmounts inputs
  let totalSompiOut ← checkTransactionOutputAmounts tx totalSompiIn
  let fee := totalSompiIn - totalSompiOut
  checkTransactionSequenceLock povDAAScore tx inputs
  v.validateSigOpCounts 0 inputs
  v.validateTransactionScripts tx utxoEntries inputs
  pure fee

/-! ## The fee -/

def entryTotal (entries : List UTXOEntry) : ℕ := (entries.map (·.amount)).sum

variable {entries : List UTXOEntry}

/-- The sum of the inputs neither wraps nor passes the maximum without an error. -/
theorem checkInputAmounts_eq_ok {total result : ℕ} {inputs : List DomainTransactionInput}
    (hlen : inputs.length = entries.length) (hamount : ∀ e ∈ entries, e.amount < 2 ^ 64) (htotal : total ≤ maxSompi) :
    checkInputAmounts total (inputs.zip (entries.map some)) = .ok result ↔
      total + entryTotal entries = result ∧ result ≤ maxSompi := by
  induction inputs generalizing entries total with
  | nil =>
    obtain rfl : entries = [] := length_eq_zero_iff.mp hlen.symm
    simp only [zip_nil_left, checkInputAmounts, Except.ok.injEq, entryTotal, map_nil, sum_nil]
    omega
  | cons input inputs ih =>
    obtain _ | ⟨entry, entries⟩ := entries
    · simp at hlen
    have hmax : maxSompi = 2900000000000000000 := rfl
    have hentry := hamount entry (by simp)
    have hsum : entryTotal (entry :: entries) = entry.amount + entryTotal entries := by simp [entryTotal]
    simp only [map_cons, zip_cons_cons, checkInputAmounts, checkEntryAmounts, hsum]
    by_cases hle : total + entry.amount ≤ maxSompi
    · rw [Nat.mod_eq_of_lt (by omega), if_neg (by omega), ok_bind,
        ih (by simpa using hlen) (fun e he => hamount e (by simp [he])) hle, Nat.add_assoc]
    -- A sum that wraps is below the sum before.
    rw [if_pos (by omega)]
    simp only [error_bind, reduceCtorEq, false_iff]
    omega

theorem foldl_outputs_eq {total : ℕ} {outputs : List DomainTransactionOutput}
    (h : total + outputTotal outputs < 2 ^ 64) :
    outputs.foldl (fun total output => (total + output.value) % 2 ^ 64) total = total + outputTotal outputs := by
  induction outputs generalizing total with
  | nil => rfl
  | cons output outputs ih =>
    have hsum : outputTotal (output :: outputs) = output.value + outputTotal outputs := by simp [outputTotal]
    rw [hsum] at h ⊢
    rw [foldl_cons, Nat.mod_eq_of_lt (by omega), ih (by omega), Nat.add_assoc]

theorem fee_exact {povDAAScore fee : ℕ} {tx : DomainTransaction} (hiso : PassedIsolation tx)
    (hlen : tx.inputs.length = entries.length) (hamount : ∀ e ∈ entries, e.amount < 2 ^ 64)
    (h : v.validateTransactionInContextAndPopulateFee povDAAScore tx (entries.map some) = .ok fee) :
    entryTotal entries ≤ maxSompi ∧ entryTotal entries = outputTotal tx.outputs + fee := by
  have hmax : maxSompi = 2900000000000000000 := rfl
  have hout := hiso.outputs
  obtain ⟨⟨⟩, -, h⟩ := bind_eq_ok.mp h
  obtain ⟨totalIn, hin, h⟩ := bind_eq_ok.mp h
  obtain ⟨totalOut, htotalOut, h⟩ := bind_eq_ok.mp h
  obtain ⟨⟨⟩, -, h⟩ := bind_eq_ok.mp h
  obtain ⟨⟨⟩, -, h⟩ := bind_eq_ok.mp h
  obtain ⟨⟨⟩, -, h⟩ := bind_eq_ok.mp h
  obtain ⟨total, htotal, hin⟩ := bind_eq_ok.mp hin
  split_ifs at hin
  cases hin
  obtain ⟨rfl, htotal⟩ := (checkInputAmounts_eq_ok hlen hamount (Nat.zero_le _)).mp htotal
  have hfold := foldl_outputs_eq (show 0 + outputTotal tx.outputs < 2 ^ 64 by omega)
  rw [Nat.zero_add] at hfold htotal htotalOut h
  simp only [checkTransactionOutputAmounts, hfold] at htotalOut
  split_ifs at htotalOut with hless
  cases htotalOut
  cases h
  omega

/-- The totals that the loops compute are those of the exact integers after every input and every output. -/
theorem validated_amounts_exact {povDAAScore fee : ℕ} {tx : DomainTransaction}
    (hiso : v.validateTransactionInIsolation tx = .ok ()) (hlen : tx.inputs.length = entries.length)
    (hamount : ∀ e ∈ entries, e.amount < 2 ^ 64)
    (h : v.validateTransactionInContextAndPopulateFee povDAAScore tx (entries.map some) = .ok fee) :
    entryTotal entries ≤ maxSompi ∧ entryTotal entries = outputTotal tx.outputs + fee ∧
      ∀ k, checkInputAmounts 0 ((tx.inputs.take k).zip ((entries.take k).map some)) = .ok (entryTotal (entries.take k)) ∧
        (tx.outputs.take k).foldl (fun total output => (total + output.value) % 2 ^ 64) 0 =
          outputTotal (tx.outputs.take k) := by
  obtain ⟨hin, hfee⟩ := v.fee_exact (v.passedIsolation hiso) hlen hamount h
  refine ⟨hin, hfee, fun k => ⟨?_, ?_⟩⟩
  · rw [checkInputAmounts_eq_ok (by simp [hlen]) (fun e he => hamount e (mem_of_mem_take he)) (Nat.zero_le _)]
    have hle : entryTotal (entries.take k) ≤ entryTotal entries := by
      conv_rhs => rw [← take_append_drop k entries]
      simp only [entryTotal, map_append, sum_append_nat, Nat.le_add_right]
    omega
  have hle : outputTotal (tx.outputs.take k) ≤ outputTotal tx.outputs := by
    conv_rhs => rw [← take_append_drop k tx.outputs]
    simp only [outputTotal, map_append, sum_append_nat, Nat.le_add_right]
  have hmax : maxSompi = 2900000000000000000 := rfl
  rw [foldl_outputs_eq (by omega), Nat.zero_add]

theorem validated_amounts_exact_spend :
    let v : TransactionValidator := ⟨100, false, 204, 18, 150, fun _ _ => 0, fun _ _ _ _ => .ok ()⟩
    let tx : DomainTransaction :=
      ⟨0, [⟨⟨0, 0⟩, [], 0, 0⟩, ⟨⟨0, 1⟩, [], 0, 0⟩], [⟨3, ⟨[], 0⟩⟩, ⟨7, ⟨[], 0⟩⟩], 0, 0, 0, [], 0⟩
    let entries : List UTXOEntry := [⟨5, ⟨[], 0⟩, 0, false⟩, ⟨8, ⟨[], 0⟩, 0, false⟩]
    v.validateTransactionInContextAndPopulateFee 9 tx (entries.map some) = .ok 3 ∧
      entryTotal entries = outputTotal tx.outputs + 3 := by
  intro v tx entries
  have h : v.validateTransactionInContextAndPopulateFee 9 tx (entries.map some) = .ok 3 ∧
      v.validateTransactionInIsolation tx = .ok () := by decide +kernel
  exact ⟨h.1, (v.validated_amounts_exact h.2 rfl (by decide) h.1).2.1⟩

end TransactionValidator
end Kaspad
