import Kaspad.Lib.Meets
import Kaspad.Transaction

/-! # Validation of a transaction in isolation

`transaction_in_isolation.go` of `domain/consensus/processes/transactionvalidator`.
-/

namespace Kaspad
open Lib List

inductive RuleCode
  | noTxInputs
  | txOutValueZero
  | badTxOutValue
  | duplicateTxInputs
  | badCoinbasePayloadLen
  | coinbaseWithInputs
  | coinbaseTooManyOutputs
  | coinbaseTooLongScriptPublicKey
  | invalidGas
  | subnetworkRegistry
  | invalidPayload
  | subnetworksDisabled
  | transactionVersionIsUnknown
  | immatureSpend
  | spendTooHigh
  | unfinalizedTx
  | wrongSigOpCount
  | scriptMalformed
  | scriptValidation
  | badMerkleRoot
  | noTransactions
  | firstTxNotCoinbase
  | multipleCoinbases
  | unexpectedCoinbaseBlueScore
  | transactionsNotSorted
  | blockMassTooHigh
  | duplicateTx
  | doubleSpendInSameBlock
  | chainedTransactions
  | badUTXOCommitment
  | badCoinbaseTransaction
  deriving DecidableEq, Repr

/-- `ruleerrors.RuleError`. `ErrMissingTxOut` has its outpoints, the other errors a text. -/
inductive RuleError
  | rule (code : RuleCode) (message : String)
  | missingTxOut (missingOutpoints : List DomainOutpoint)
  deriving DecidableEq, Repr

inductive ScriptFailure
  | malformed (message : String)
  | failed (message : String)
  deriving DecidableEq, Repr

structure TransactionValidator where
  blockCoinbaseMaturity : ℕ
  enableNonNativeSubnetworks : Bool
  maxCoinbasePayloadLength : ℕ
  ghostdagK : ℕ
  coinbasePayloadScriptPublicKeyMaxLength : ℕ
  /-- `GetPreciseSigOpCount` of a signature script and a script public key, with `IsPayToScriptHash` of
  the second. -/
  sigOpCount : List UInt8 → ScriptPublicKey → ℕ
  /-- `NewEngine` and `Execute` for the input of this number, which spends an output with this script
  public key. -/
  executeScript : DomainTransaction → List (Option UTXOEntry) → ℕ → ScriptPublicKey → Except ScriptFailure Unit

namespace TransactionValidator
variable (v : TransactionValidator)

def checkTransactionInputCount (tx : DomainTransaction) : Except RuleError Unit :=
  if !isCoinBase tx ∧ tx.inputs.length = 0 then .error (.rule .noTxInputs "transaction has no inputs")
  else .ok ()

/-- The loop of `checkTransactionAmountRanges`; `totalSompi` is the sum of the outputs so far. -/
def checkAmountRanges : ℕ → List DomainTransactionOutput → Except RuleError Unit
  | _, [] => .ok ()
  | totalSompi, txOut :: outputs =>
    let sompi := txOut.value
    if sompi = 0 then .error (.rule .txOutValueZero "zero value outputs are forbidden")
    else if sompi > maxSompi then
      .error (.rule .badTxOutValue
        s!"transaction output value of {sompi} is higher than max allowed value of {maxSompi}")
    else
      let newTotalSompi := (totalSompi + sompi) % 2 ^ 64
      if newTotalSompi < totalSompi then
        .error (.rule .badTxOutValue
          s!"total value of all transaction outputs exceeds max allowed value of {maxSompi}")
      else if newTotalSompi > maxSompi then
        .error (.rule .badTxOutValue
          s!"total value of all transaction outputs is {newTotalSompi} which is higher than max allowed value of {maxSompi}")
      else checkAmountRanges newTotalSompi outputs

def checkTransactionAmountRanges (tx : DomainTransaction) : Except RuleError Unit :=
  checkAmountRanges 0 tx.outputs

def checkDuplicateInputs : List DomainOutpoint → List DomainTransactionInput → Except RuleError Unit
  | _, [] => .ok ()
  | existingTxOut, txIn :: inputs =>
    if txIn.previousOutpoint ∈ existingTxOut then
      .error (.rule .duplicateTxInputs "transaction contains duplicate inputs")
    else checkDuplicateInputs (txIn.previousOutpoint :: existingTxOut) inputs

def checkDuplicateTransactionInputs (tx : DomainTransaction) : Except RuleError Unit :=
  checkDuplicateInputs [] tx.inputs

def checkCoinbaseScripts : ℕ → List DomainTransactionOutput → Except RuleError Unit
  | _, [] => .ok ()
  | i, output :: outputs =>
    if output.scriptPublicKey.script.length > v.coinbasePayloadScriptPublicKeyMaxLength then
      .error (.rule .coinbaseTooLongScriptPublicKey s!"coinbase output {i} has a too long script public key")
    else checkCoinbaseScripts (i + 1) outputs

def checkCoinbaseInIsolation (tx : DomainTransaction) : Except RuleError Unit :=
  if !isCoinBase tx then .ok ()
  else
    let payloadLen := tx.payload.length
    if payloadLen > v.maxCoinbasePayloadLength then
      .error (.rule .badCoinbasePayloadLen
        s!"coinbase transaction payload length of {payloadLen} is out of range (max: {v.maxCoinbasePayloadLength})")
    else if tx.inputs.length ≠ 0 then .error (.rule .coinbaseWithInputs "coinbase has inputs")
    else
      let outputsLimit := v.ghostdagK + 2
      if tx.outputs.length > outputsLimit then
        .error (.rule .coinbaseTooManyOutputs
          s!"coinbase has too many outputs: got {tx.outputs.length} where the limit is {outputsLimit}")
      else v.checkCoinbaseScripts 0 tx.outputs

def checkGasInBuiltInOrNativeTransactions (tx : DomainTransaction) : Except RuleError Unit :=
  if isBuiltInOrNative tx.subnetworkID ∧ tx.gas > 0 then
    .error (.rule .invalidGas "transaction in the native or registry subnetworks has gas > 0 ")
  else .ok ()

def checkSubnetworkRegistryTransaction (tx : DomainTransaction) : Except RuleError Unit :=
  if tx.subnetworkID ≠ subnetworkIDRegistry then .ok ()
  else if tx.payload.length ≠ 8 then
    .error (.rule .subnetworkRegistry "validation failed: subnetwork registry tx has an invalid payload")
  else .ok ()

def checkNativeTransactionPayload (tx : DomainTransaction) : Except RuleError Unit :=
  if tx.subnetworkID = subnetworkIDNative ∧ tx.payload.length > 0 then
    .error (.rule .invalidPayload "transaction in the native subnetwork includes a payload")
  else .ok ()

def checkTransactionSubnetwork (tx : DomainTransaction) (localNodeSubnetworkID : Option DomainSubnetworkID) :
    Except RuleError Unit :=
  if !v.enableNonNativeSubnetworks ∧ tx.subnetworkID ≠ subnetworkIDNative ∧
      tx.subnetworkID ≠ subnetworkIDCoinbase then
    .error (.rule .subnetworksDisabled "transaction has non native or coinbase subnetwork ID")
  else
    let isLocalNodeFull := localNodeSubnetworkID.isNone
    let shouldTxBeFull := isBuiltIn tx.subnetworkID || localNodeSubnetworkID = some tx.subnetworkID
    if !isLocalNodeFull ∧ !shouldTxBeFull ∧ tx.payload.length > 0 then
      .error (.rule .invalidPayload
        "transaction that was expected to be partial has a payload with length > 0")
    else .ok ()

def validateTransactionInIsolation (tx : DomainTransaction) : Except RuleError Unit := do
  checkTransactionInputCount tx
  checkTransactionAmountRanges tx
  checkDuplicateTransactionInputs tx
  v.checkCoinbaseInIsolation tx
  checkGasInBuiltInOrNativeTransactions tx
  checkSubnetworkRegistryTransaction tx
  checkNativeTransactionPayload tx
  v.checkTransactionSubnetwork tx none
  if tx.version > maxTransactionVersion then
    .error (.rule .transactionVersionIsUnknown "validation failed: unknown transaction version. ")

/-! ## What passes -/

def outputTotal (outputs : List DomainTransactionOutput) : ℕ := (outputs.map (·.value)).sum

theorem checkAmountRanges_ok {total : ℕ} {outputs : List DomainTransactionOutput} (htotal : total ≤ maxSompi)
    (h : checkAmountRanges total outputs = .ok ()) : total + outputTotal outputs ≤ maxSompi := by
  induction outputs generalizing total with
  | nil => simpa [outputTotal] using htotal
  | cons output outputs ih =>
    have hmax : maxSompi = 2900000000000000000 := rfl
    simp only [checkAmountRanges] at h
    split_ifs at h with hzero hbig hwrap hover
    -- Two numbers below the maximum do not wrap.
    have hmod : (total + output.value) % 2 ^ 64 = total + output.value := Nat.mod_eq_of_lt (by omega)
    rw [hmod] at h hover
    have hrest := ih (by omega) h
    simpa [outputTotal, Nat.add_assoc] using hrest

theorem checkDuplicateInputs_ok {seen : List DomainOutpoint} {inputs : List DomainTransactionInput}
    (h : checkDuplicateInputs seen inputs = .ok ()) :
    (inputs.map (·.previousOutpoint)).Nodup ∧ ∀ input ∈ inputs, input.previousOutpoint ∉ seen := by
  induction inputs generalizing seen with
  | nil => simp
  | cons input inputs ih =>
    simp only [checkDuplicateInputs] at h
    split_ifs at h with hseen
    obtain ⟨hnodup, hnew⟩ := ih h
    refine ⟨nodup_cons.mpr ⟨fun hmem => ?_, hnodup⟩, fun other hother => ?_⟩
    · obtain ⟨other, hother, heq⟩ := mem_map.mp hmem
      exact hnew other hother (by simp [heq])
    rcases mem_cons.mp hother with rfl | hother
    · exact hseen
    · exact fun hin => hnew other hother (mem_cons_of_mem _ hin)

structure PassedIsolation (tx : DomainTransaction) : Prop where
  inputs : isCoinBase tx = false → tx.inputs ≠ []
  coinbaseInputs : isCoinBase tx = true → tx.inputs = []
  distinct : tx.outpoints.Nodup
  outputs : outputTotal tx.outputs ≤ maxSompi

theorem passedIsolation {tx : DomainTransaction} (h : v.validateTransactionInIsolation tx = .ok ()) :
    PassedIsolation tx := by
  obtain ⟨⟨⟩, hcount, h⟩ := bind_eq_ok.mp h
  obtain ⟨⟨⟩, hamounts, h⟩ := bind_eq_ok.mp h
  obtain ⟨⟨⟩, hdistinct, h⟩ := bind_eq_ok.mp h
  obtain ⟨⟨⟩, hcoinbase, -⟩ := bind_eq_ok.mp h
  refine ⟨fun hnot hnil => ?_, fun hyes => ?_, (checkDuplicateInputs_ok hdistinct).1, ?_⟩
  · simp [checkTransactionInputCount, hnot, hnil] at hcount
  · simp only [checkCoinbaseInIsolation, hyes] at hcoinbase
    split_ifs at hcoinbase with hfalse hlen hinputs <;> simp_all
  · simpa using checkAmountRanges_ok (Nat.zero_le _) hamounts

end TransactionValidator
end Kaspad
