import Kaspad.Lib.Meets
import Kaspad.Mempool.Validation
import Kaspad.Wallet.Transaction

/-! # Splitting a transaction that is too heavy

`split_transaction.go` of `cmd/kaspawallet/daemon/server`, with the fee estimates of
`create_unsigned_transaction.go`. A transaction above the standard mass is replaced by transactions that move a
part of its inputs to a change address, and by a transaction that merges their outputs, which may be split
again. Numbers of 64 bits wrap. Floating-point fee rates are what the code computes with them.
-/

namespace Kaspad.Wallet
open Lib
open Mempool (maximumStandardTransactionMass)

structure FeeRate where
  /-- `uint64(math.Ceil(float64(mass) * feeRate))` -/
  ceil : ℕ → ℕ
  /-- `uint64(float64(mass) * feeRate)` -/
  floor : ℕ → ℕ

abbrev WalletUTXO := UTXO

structure Server (KeyString ExtendedKey : Type) where
  bip32 : Bip32 KeyString ExtendedKey
  transactionID : DomainTransaction → DomainTransactionID
  extendedPublicKeys : List KeyString
  minimumSignatures : ℕ
  ecdsa : Bool
  txMassCalculator : Calculator
  utxosSortedByAmount : List WalletUTXO
  coinbaseMaturity : ℕ
  virtualDAAScore : ℕ → Except WalletError ℕ
  /-- `float64(fee)/float64(mass) < 1` -/
  feeRateBelowOne : ℤ → ℕ → Bool
  /-- What `make` can allocate. -/
  maxAlloc : ℕ

structure Request where
  toAddress : Address
  changeAddress : Address
  changePath : String
  feeRate : FeeRate
  maxFee : ℕ

variable {KeyString ExtendedKey : Type} [LinearOrder KeyString] (s : Server KeyString ExtendedKey)

/-! ## Masses and fees -/

def signatureSize : ℕ := 64

def createTransactionWithJunkFieldsForMassCalculation (pst : PartiallySignedTransaction KeyString) :
    Except WalletError (DomainTransaction × (ℕ → Option UTXOEntry)) := do
  let psis := pst.partiallySignedInputs.map fun input =>
    { input with pubKeySignaturePairs := input.pubKeySignaturePairs.mapIdx fun j pair =>
        if j ≥ s.minimumSignatures then pair
        else { pair with signature := some (List.replicate (signatureSize + 1) 0) } }
  let tx ← setSigOpCounts ⟨pst.tx, psis⟩
  let tx ← extractTransactionDeserialized s.bip32 ⟨tx, psis⟩ s.ecdsa
  pure (tx, prevEntry psis)

def estimateComputeMassAfterSignatures (pst : PartiallySignedTransaction KeyString) : Except WalletError ℕ := do
  let (tx, _) ← createTransactionWithJunkFieldsForMassCalculation s pst
  pure (s.txMassCalculator.calculateTransactionMass tx)

def estimateMassAfterSignatures (pst : PartiallySignedTransaction KeyString) : Except WalletError ℕ := do
  let (tx, utxoEntry) ← createTransactionWithJunkFieldsForMassCalculation s pst
  (s.txMassCalculator.calculateTransactionOverallMass tx utxoEntry).mapError .mass

def create (payments : List Payment) (selectedUTXOs : List UTXO) :
    Except WalletError (PartiallySignedTransaction KeyString) :=
  createUnsignedTransaction s.bip32 s.transactionID s.extendedPublicKeys s.minimumSignatures payments selectedUTXOs

def fakeAddr : Address := .publicKeyECDSA (List.replicate 33 0)

def totalAmount (utxos : List UTXO) : ℕ := (utxos.map (·.utxoEntry.amount)).sum % 2 ^ 64

def estimateFee (selectedUTXOs : List UTXO) (feeRate : FeeRate) (maxFee recipientValue : ℕ) :
    Except WalletError ℕ := do
  let totalValue := totalAmount selectedUTXOs
  let mockPayments : List Payment :=
    if totalValue > recipientValue then [⟨fakeAddr, recipientValue⟩, ⟨fakeAddr, totalValue - recipientValue⟩]
    else [⟨fakeAddr, totalValue⟩]
  let mockTx ← create s mockPayments selectedUTXOs
  let mass ← estimateMassAfterSignatures s mockTx
  pure (min (feeRate.ceil mass) maxFee)

def estimateFeePerInput (feeRate : FeeRate) : Except WalletError ℕ := do
  let mockTx ← create s [] [⟨⟨0, 0⟩, ⟨1, ⟨[], 0⟩, 0, false⟩, "m"⟩]
  let mass ← estimateComputeMassAfterSignatures s mockTx
  let mockTxWithoutUTXO ← create s [] []
  let massWithoutUTXO ← estimateComputeMassAfterSignatures s mockTxWithoutUTXO
  pure (feeRate.floor (sub64 mass massWithoutUTXO))

def signedSum (values : List ℕ) : ℤ := ((values.sum : ℕ) : ℤ).bmod (2 ^ 64)

def checkTransactionFeeRate (pst : PartiallySignedTransaction KeyString) (maxFee : ℕ) : Except WalletError Unit := do
  let totalOuts := signedSum (pst.tx.outputs.map (·.value))
  let totalIns := signedSum (pst.partiallySignedInputs.map (·.prevOutput.value))
  if totalIns < totalOuts then throw .notEnoughFunds
  else do
    let mass ← estimateComputeMassAfterSignatures s pst
    if s.feeRateBelowOne ((totalIns - totalOuts).bmod (2 ^ 64)) mass then throw (.feeRateTooLow maxFee) else pure ()

/-! ## Splits -/

def spentUTXO (psi : PartiallySignedInput KeyString) (input : DomainTransactionInput) : UTXO :=
  ⟨input.previousOutpoint, ⟨psi.prevOutput.value, psi.prevOutput.scriptPublicKey, unacceptedDAAScore, false⟩,
    psi.derivationPath⟩

def inputsBetween (pst : PartiallySignedTransaction KeyString) (startIndex endIndex : ℕ) :
    Except WalletError (List UTXO) :=
  let last := min endIndex pst.partiallySignedInputs.length
  if startIndex < last ∧ pst.tx.inputs.length < last then .error .outOfRange
  else .ok (List.zipWith spentUTXO ((pst.partiallySignedInputs.take last).drop startIndex)
    ((pst.tx.inputs.take last).drop startIndex))

def splitValue (r : Request) (selectedUTXOs : List UTXO) : Except WalletError ℕ := do
  let totalSompi := totalAmount selectedUTXOs
  if selectedUTXOs.length ≠ 0 then do
    let fee ← estimateFee s selectedUTXOs r.feeRate r.maxFee totalSompi
    pure (sub64 totalSompi fee)
  else pure totalSompi

def createSplitTransaction (r : Request) (pst : PartiallySignedTransaction KeyString) (startIndex endIndex : ℕ) :
    Except WalletError (PartiallySignedTransaction KeyString) := do
  let selectedUTXOs ← inputsBetween pst startIndex endIndex
  let totalSompi ← splitValue s r selectedUTXOs
  create s [⟨r.changeAddress, totalSompi⟩] selectedUTXOs

/-- The number of inputs per split is the capacity of a slice later: what cannot be allocated is a panic. -/
def countsOf (maxAlloc inputCount massForInputsInSplitTransaction massPerInput : ℕ) : Except WalletError (ℕ × ℕ) :=
  let inputsPerSplitCount := massForInputsInSplitTransaction / massPerInput
  if massPerInput = 0 then .error .divideByZero
  else if 8 * inputsPerSplitCount > maxAlloc then .error .outOfRange
  else if inputsPerSplitCount = 0 then .error .divideByZero
  else .ok (inputCount / inputsPerSplitCount + (if inputCount % inputsPerSplitCount > 0 then 1 else 0),
    inputsPerSplitCount)

def splitAndInputPerSplitCounts (r : Request) (pst : PartiallySignedTransaction KeyString) (transactionMass : ℕ) :
    Except WalletError (ℕ × ℕ) := do
  let massWithoutInputs := s.txMassCalculator.calculateTransactionMass { pst.tx with inputs := [] }
  let massOfAllInputs := sub64 transactionMass massWithoutInputs
  let inputCount := pst.tx.inputs.length
  if inputCount = 0 then throw .divideByZero
  else do
    let massPerInput := add64 (massOfAllInputs / inputCount) (if massOfAllInputs % inputCount > 0 then 1 else 0)
    let splitTransactionWithoutInputs ← createSplitTransaction s r pst 0 0
    let massForEverythingExceptInputsInSplitTransaction :=
      s.txMassCalculator.calculateTransactionMass splitTransactionWithoutInputs.tx
    countsOf s.maxAlloc inputCount (sub64 maximumStandardTransactionMass massForEverythingExceptInputsInSplitTransaction)
      massPerInput

def createSplits (r : Request) (pst : PartiallySignedTransaction KeyString) (splitCount inputCountPerSplit : ℕ) :
    Except WalletError (List (PartiallySignedTransaction KeyString)) :=
  (List.range splitCount).mapM fun i => do
    let split ← createSplitTransaction s r pst (i * inputCountPerSplit) (i * inputCountPerSplit + inputCountPerSplit)
    checkTransactionFeeRate s split r.maxFee
    pure split

/-! ## The merge -/

def isUTXOSpendable (utxo : WalletUTXO) (virtualDAAScore : ℕ) : Bool :=
  if !utxo.utxoEntry.isCoinbase then true
  else add64 utxo.utxoEntry.blockDAAScore s.coinbaseMaturity < virtualDAAScore

/-- The loop of `moreUTXOsForMergeTransaction`: the UTXOs and the value that they add. -/
def moreUTXOs (alreadySelected : List DomainOutpoint) (virtualDAAScore requiredAmount feePerInput : ℕ) :
    List WalletUTXO → ℕ → List UTXO × ℕ
  | [], added => ([], added)
  | utxo :: utxos, added =>
    if utxo.outpoint ∈ alreadySelected then moreUTXOs alreadySelected virtualDAAScore requiredAmount feePerInput utxos added
    else if !isUTXOSpendable s utxo virtualDAAScore then
      moreUTXOs alreadySelected virtualDAAScore requiredAmount feePerInput utxos added
    else
      let added := add64 added (sub64 utxo.utxoEntry.amount feePerInput)
      if added ≥ requiredAmount then ([utxo], added)
      else
        let (rest, added) := moreUTXOs alreadySelected virtualDAAScore requiredAmount feePerInput utxos added
        (utxo :: rest, added)

def moreUTXOsForMergeTransaction (call : ℕ) (alreadySelectedUTXOs : List UTXO) (requiredAmount : ℕ)
    (feeRate : FeeRate) : Except WalletError (List UTXO × ℕ) := do
  let virtualDAAScore ← s.virtualDAAScore call
  let feePerInput ← estimateFeePerInput s feeRate
  let (additionalUTXOs, totalValueAdded) := moreUTXOs s (alreadySelectedUTXOs.map (·.outpoint)) virtualDAAScore
    requiredAmount feePerInput s.utxosSortedByAmount 0
  if totalValueAdded < requiredAmount then throw .insufficientFundsForMerge
  else pure (additionalUTXOs, totalValueAdded)

def splitOutput (r : Request) (split : PartiallySignedTransaction KeyString) : Except WalletError UTXO :=
  match split.tx.outputs.head? with
  | none => .error .outOfRange
  | some output =>
    .ok ⟨⟨split.tx.id, 0⟩, ⟨output.value, output.scriptPublicKey, unacceptedDAAScore, false⟩, r.changePath⟩

/-- What `mergeTransaction` adds to the outputs of the splits, and the value that is left after the fee. -/
def mergeFunds (call : ℕ) (r : Request) (utxos : List UTXO) (sentValue : ℕ) : Except WalletError (List UTXO × ℕ) := do
  let fee ← estimateFee s utxos r.feeRate r.maxFee sentValue
  let totalValue := sub64 (totalAmount utxos) fee
  if totalValue < sentValue then do
    let (additionalUTXOs, totalValueAdded) ←
      moreUTXOsForMergeTransaction s call utxos (sentValue - totalValue) r.feeRate
    pure (additionalUTXOs, add64 totalValue totalValueAdded)
  else pure ([], totalValue)

def mergeTransaction (call : ℕ) (r : Request) (splitTransactions : List (PartiallySignedTransaction KeyString))
    (originalTransaction : PartiallySignedTransaction KeyString) :
    Except WalletError (PartiallySignedTransaction KeyString) := do
  match originalTransaction.tx.outputs with
  | [] => throw (.outputCount 0)
  | payment :: rest =>
    if rest.length > 1 then throw (.outputCount (rest.length + 1))
    else do
      let utxos ← splitTransactions.mapM (splitOutput r)
      let (additionalUTXOs, totalValue) ← mergeFunds s call r utxos payment.value
      let change : List Payment :=
        if totalValue > payment.value then [⟨r.changeAddress, totalValue - payment.value⟩] else []
      create s (⟨r.toAddress, payment.value⟩ :: change) (utxos ++ additionalUTXOs)

def maybeSplitAndMergeTransaction (r : Request) : ℕ → PartiallySignedTransaction KeyString →
    Except WalletError (List (PartiallySignedTransaction KeyString))
  | 0, _ => throw .running
  | depth + 1, transaction => do
    checkTransactionFeeRate s transaction r.maxFee
    let transactionMass ← estimateComputeMassAfterSignatures s transaction
    if transactionMass < maximumStandardTransactionMass then pure [transaction]
    else do
      let (splitCount, inputCountPerSplit) ← splitAndInputPerSplitCounts s r transaction transactionMass
      let splitTransactions ← createSplits s r transaction splitCount inputCountPerSplit
      if splitTransactions.length > 1 then do
        let merge ← mergeTransaction s depth r splitTransactions transaction
        let splitMergeTransaction ← maybeSplitAndMergeTransaction r depth merge
        pure (splitTransactions ++ splitMergeTransaction)
      else pure splitTransactions

end Kaspad.Wallet
