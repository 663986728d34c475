import Kaspad.Transaction

/-! # The mass of a transaction

`util/txmass/calculator.go`. The compute mass is made of sums and products of 64-bit numbers only, so it is
taken modulo `2 ^ 64` once. The storage mass divides and compares, and wraps at each step.
-/

namespace Kaspad

structure Calculator where
  massPerTxByte : ℕ
  massPerScriptPubKeyByte : ℕ
  massPerSigOp : ℕ
  storageMassParameter : ℕ

def Calculator.new (massPerTxByte massPerScriptPubKeyByte massPerSigOp : ℕ) : Calculator :=
  ⟨massPerTxByte, massPerScriptPubKeyByte, massPerSigOp, sompiPerKaspa * 10000⟩

def outpointEstimatedSerializedSize : ℕ := 32 + 4

def transactionInputEstimatedSerializedSize (input : DomainTransactionInput) : ℕ :=
  outpointEstimatedSerializedSize + 8 + input.signatureScript.length + 8

def transactionOutputEstimatedSerializedSize (output : DomainTransactionOutput) : ℕ :=
  8 + 2 + 8 + output.scriptPublicKey.script.length

def transactionEstimatedSerializedSize (tx : DomainTransaction) : ℕ :=
  if isCoinBase tx then 0
  else 2 + 8 + (tx.inputs.map transactionInputEstimatedSerializedSize).sum + 8 +
    (tx.outputs.map transactionOutputEstimatedSerializedSize).sum + 8 + 20 + 8 + 32 + 8 + tx.payload.length

namespace Calculator
variable (c : Calculator)

def calculateTransactionMass (tx : DomainTransaction) : ℕ :=
  if isCoinBase tx then 0
  else
    let totalScriptPubKeySize := (tx.outputs.map fun output => 2 + output.scriptPublicKey.script.length).sum
    let totalSigOpCount := (tx.inputs.map fun input => input.sigOpCount).sum
    (transactionEstimatedSerializedSize tx * c.massPerTxByte + totalScriptPubKeySize * c.massPerScriptPubKeyByte +
      totalSigOpCount * c.massPerSigOp) % 2 ^ 64

inductive MassPanic
  | noInputs
  /-- "Unexpected overflow in storage mass calculation" -/
  | overflow
  /-- "Storage mass calculation expects a fully populated transaction" -/
  | notPopulated
  | divideByZero
  deriving DecidableEq, Repr

def quotient (a b : ℕ) : Except MassPanic ℕ := if b = 0 then .error .divideByZero else .ok (a / b)

def harmonicOuts : ℕ → List DomainTransactionOutput → Except MassPanic ℕ
  | sum, [] => .ok sum
  | sum, output :: outputs => do
    let inverseOut ← quotient c.storageMassParameter output.value
    if (sum + inverseOut) % 2 ^ 64 < sum then .error .overflow
    else harmonicOuts ((sum + inverseOut) % 2 ^ 64) outputs

def inputAmounts (utxoEntry : ℕ → Option UTXOEntry) (inputs : List DomainTransactionInput) : Except MassPanic (List ℕ) :=
  (List.range inputs.length).mapM fun i =>
    match utxoEntry i with
    | none => .error .notPopulated
    | some entry => .ok entry.amount

def harmonicDiff : ℕ → List ℕ → Except MassPanic ℕ
  | diff, [] => .ok diff
  | diff, amount :: amounts => do
    let inverseIn ← quotient c.storageMassParameter amount
    harmonicDiff (diff - inverseIn) amounts

def calculateTransactionStorageMass (tx : DomainTransaction) (utxoEntry : ℕ → Option UTXOEntry) :
    Except MassPanic ℕ :=
  if isCoinBase tx then .ok 0
  else if tx.inputs.length = 0 then .error .noInputs
  else do
    let outs ← c.harmonicOuts 0 tx.outputs
    let amounts ← inputAmounts utxoEntry tx.inputs
    if tx.outputs.length = 1 ∨ tx.inputs.length = 1 ∨ (tx.outputs.length = 2 ∧ tx.inputs.length = 2) then
      c.harmonicDiff outs amounts
    else do
      let sumIns := amounts.sum % 2 ^ 64
      let inverseMeanIns ← quotient c.storageMassParameter (sumIns / tx.inputs.length)
      let arithmeticIns := tx.inputs.length * inverseMeanIns % 2 ^ 64
      if arithmeticIns < inverseMeanIns ∨ outs < arithmeticIns then .ok 0 else .ok (outs - arithmeticIns)

def calculateTransactionOverallMass (tx : DomainTransaction) (utxoEntry : ℕ → Option UTXOEntry) :
    Except MassPanic ℕ := do
  let storageMass ← c.calculateTransactionStorageMass tx utxoEntry
  pure (max (c.calculateTransactionMass tx) storageMass)

end Calculator
end Kaspad
