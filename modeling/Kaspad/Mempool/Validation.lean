import Kaspad.Lib.Prog
import Kaspad.Txmass
import Mathlib.Algebra.Order.Ring.Unbundled.Rat

/-! # Transaction checks of the mempool

`check_transaction_standard.go`, `validate_transaction.go` and the input filling of
`fill_inputs_and_get_missing_parents.go`. The checks read the mempool and a transaction with its
populated fields; they write nothing, so they are plain functions.
-/

namespace Kaspad.Mempool
open Lib

/-! ## The state of the mempool

The types of `domain/miningmanager/mempool` and its `model` directory. A pointer to a transaction
object is its address together with the fields that never change; the fields that the mempool
writes (`Populated`, and the parent set of a pool transaction) live in the heap under that address.
Two pointers are the same object when their addresses agree, as in the source.
-/

/-! ## Errors -/

inductive RejectCode
  | duplicate
  | nonstandard
  | dust
  | insufficientFee
  | immatureSpend
  | badOrphan
  | spamTx
  deriving DecidableEq, Repr

/-- `ErrMissingTxOut` with its outpoints, `ErrImmatureSpend`, another `RuleError`, and any other error. -/
inductive ConsensusError
  | missingTxOut (missingOutpoints : List DomainOutpoint)
  | immatureSpend
  | rule (message : String)
  | other (message : String)
  deriving DecidableEq, Repr

/-- `mempool.RuleError`: it wraps a `TxRuleError` or a rule error of consensus. -/
inductive RuleError
  | tx (rejectCode : RejectCode) (description : String)
  | consensus (error : ConsensusError)
  deriving DecidableEq, Repr

inductive MempoolError
  | rule (error : RuleError)
  | consensus (error : ConsensusError)
  /-- `GetVirtualDAAScore` failed. -/
  | virtualDAAScore
  /-- `Input No. %d of %s (%s) doesn't exist in orphansByPreviousOutpoint` -/
  | orphanInputNotFound (i : ℕ) (id : DomainTransactionID) (outpoint : DomainOutpoint)
  /-- `findTransactionIndex expects a transaction with populated fee and mass` -/
  | feeOrMassNotPopulated
  /-- `Couldn't find %s in mp.orderedTransactionsByFeeRate` -/
  | transactionNotFound (id : DomainTransactionID)
  deriving DecidableEq, Repr

/-- An error, a panic (an index out of range, or a nil UTXO entry), or a loop that still runs. -/
inductive Failure
  | error (error : MempoolError)
  | indexOutOfRange (index length : ℕ)
  | nilDereference
  | running
  deriving DecidableEq, Repr

def transactionRuleError (code : RejectCode) (description : String) : MempoolError :=
  .rule (.tx code description)

/-! ## Objects -/

/-- Transactions are shared and filled in place; the address is that of what is filled. -/
structure TransactionPointer where
  address : ℕ
  content : DomainTransaction
  deriving DecidableEq, Repr

structure MempoolTransaction where
  address : ℕ
  transaction : TransactionPointer
  isHighPriority : Bool
  addedAtDAAScore : ℕ
  deriving DecidableEq, Repr

def MempoolTransaction.id (t : MempoolTransaction) : DomainTransactionID := t.transaction.content.id

def MempoolTransaction.outpoints (t : MempoolTransaction) : List DomainOutpoint :=
  t.transaction.content.outpoints

structure OrphanTransaction where
  transaction : TransactionPointer
  isHighPriority : Bool
  addedAtDAAScore : ℕ
  deriving DecidableEq, Repr

def OrphanTransaction.id (t : OrphanTransaction) : DomainTransactionID := t.transaction.content.id

/-! ## The pools -/

structure TransactionsPool where
  allTransactions : GoMap DomainTransactionID MempoolTransaction
  highPriorityTransactions : GoMap DomainTransactionID MempoolTransaction
  chainedTransactionsByParentID : GoMap DomainTransactionID (List MempoolTransaction)
  transactionsOrderedByFeeRate : List MempoolTransaction
  lastExpireScanDAAScore : ℕ

structure MempoolUTXOSet where
  poolUnspentOutputs : GoMap DomainOutpoint (Option UTXOEntry)
  transactionByPreviousOutpoint : GoMap DomainOutpoint MempoolTransaction

structure OrphansPool where
  allOrphans : GoMap DomainTransactionID OrphanTransaction
  orphansByPreviousOutpoint : GoMap DomainOutpoint OrphanTransaction
  lastExpireScan : ℕ

structure Heap where
  content : ℕ → DomainTransaction
  populated : ℕ → Populated
  parentTransactionsInPool : ℕ → GoMap DomainTransactionID MempoolTransaction
  nextAddress : ℕ

structure State where
  mempoolUTXOSet : MempoolUTXOSet
  transactionsPool : TransactionsPool
  orphansPool : OrphansPool
  heap : Heap

def State.new : State where
  mempoolUTXOSet := ⟨∅, ∅⟩
  transactionsPool := ⟨∅, ∅, ∅, [], 0⟩
  orphansPool := ⟨∅, ∅, 0⟩
  heap := ⟨fun _ => ⟨0, [], [], 0, 0, 0, [], 0⟩, fun _ => ⟨fun _ => none, 0, 0⟩, fun _ => ∅, 0⟩

/-! ## Configuration and surroundings -/

structure Config where
  maximumTransactionCount : ℕ
  transactionExpireIntervalDAAScore : ℕ
  transactionExpireScanIntervalDAAScore : ℕ
  orphanExpireIntervalDAAScore : ℕ
  orphanExpireScanIntervalDAAScore : ℕ
  maximumOrphanTransactionMass : ℕ
  maximumOrphanTransactionCount : ℕ
  acceptNonStandard : Bool
  minimumRelayTransactionFee : ℕ
  minimumStandardTransactionVersion : ℕ
  maximumStandardTransactionVersion : ℕ

inductive ScriptClass
  | nonStandard
  | scriptHash
  | standard
  deriving DecidableEq, Repr

/-- The UTXO entries, the fee if it gets to computing one, and the error it returns. -/
structure ValidationAnswer where
  utxoEntry : DomainOutpoint → Option UTXOEntry
  fee : Option ℕ
  error : Option ConsensusError

/-- Consensus, the clock (has the expire scan interval passed?), and the order in which a `range` visits the keys.
-/
structure Surroundings where
  virtualDAAScore : Option ℕ
  transactionMass : DomainTransaction → ℕ
  validate : DomainTransaction → Populated → ValidationAnswer
  scanIntervalPassed : Bool
  keyOrder : DomainTransactionID → ℕ

/-- The configuration, the functions of `txscript`, the division `float64(fee) / float64(mass)`, and the `n`-th
answer. -/
structure Setup where
  config : Config
  getScriptClass : List UInt8 → ScriptClass
  isUnspendable : List UInt8 → Bool
  getPreciseSigOpCount : List UInt8 → ScriptPublicKey → ℕ
  feeRate : ℕ → ℕ → ℚ
  surroundings : ℕ → Surroundings

/-! ## Runs -/

/-- The steps that write the double-spend index, with the state they start in. -/
structure IndexWrite where
  transaction : MempoolTransaction
  before : State

/-- The mempool, the number of queries so far, and the index writes, the latest first, which no function reads. -/
structure World where
  state : State
  queries : ℕ
  indexWrites : List IndexWrite

abbrev M (α : Type) := Prog World Failure α

def query {α : Type} (S : Setup) (f : Surroundings → α) : M α := do
  let w ← get
  modify fun w => { w with queries := w.queries + 1 }
  pure (f (S.surroundings w.queries))

def getState : M State := do
  pure (← get).state

def modifyState (f : State → State) : M Unit :=
  modify fun w => { w with state := f w.state }

def fail {α : Type} (e : MempoolError) : M α := throw (.error e)

def ofExcept {α : Type} : Except MempoolError α → M α
  | .ok a => pure a
  | .error e => fail e

def writeIndex (t : MempoolTransaction) (f : State → State) : M Unit :=
  modify fun w => { w with state := f w.state, indexWrites := ⟨t, w.state⟩ :: w.indexWrites }

variable (S : Setup)

/-! ## Standardness -/

def maxStandardP2SHSigOps : ℕ := 15

def maximumStandardSignatureScriptSize : ℕ := 1650

def maximumStandardTransactionMass : ℕ := 100000

def isTransactionOutputDust (output : DomainTransactionOutput) : Bool :=
  if S.isUnspendable output.scriptPublicKey.script then true
  else
    let totalSerializedSize := transactionOutputEstimatedSerializedSize output + 148
    decide (output.value * 1000 % 2 ^ 64 / (3 * totalSerializedSize) < S.config.minimumRelayTransactionFee)

def checkInputsStandardInIsolation : ℕ → List DomainTransactionInput → Except MempoolError Unit
  | _, [] => .ok ()
  | i, input :: inputs =>
    let signatureScriptLen := input.signatureScript.length
    if signatureScriptLen > maximumStandardSignatureScriptSize then
      .error (transactionRuleError .nonstandard
        s!"transaction input {i}: signature script size of {signatureScriptLen} bytes is larger than the maximum allowed size of {maximumStandardSignatureScriptSize} bytes")
    else checkInputsStandardInIsolation (i + 1) inputs

def checkOutputsStandardInIsolation : ℕ → List DomainTransactionOutput → Except MempoolError Unit
  | _, [] => .ok ()
  | i, output :: outputs =>
    if output.scriptPublicKey.version > maxScriptPublicKeyVersion then
      .error (transactionRuleError .nonstandard
        "The version of the scriptPublicKey is higher than the known version.")
    else if S.getScriptClass output.scriptPublicKey.script = .nonStandard then
      .error (transactionRuleError .nonstandard s!"transaction output {i}: non-standard script form")
    else if isTransactionOutputDust S output then
      .error (transactionRuleError .dust
        s!"transaction output {i}: payment of {output.value} is dust")
    else checkOutputsStandardInIsolation (i + 1) outputs

def checkTransactionStandardInIsolation (tx : DomainTransaction) (p : Populated) :
    Except MempoolError Unit := do
  let lowest := S.config.minimumStandardTransactionVersion
  let highest := S.config.maximumStandardTransactionVersion
  if tx.version > highest ∨ tx.version < lowest then
    .error (transactionRuleError .nonstandard
      s!"transaction version {tx.version} is not in the valid range of {lowest}-{highest}")
  else if p.mass > maximumStandardTransactionMass then
    .error (transactionRuleError .nonstandard
      s!"transaction mass of {p.mass} is larger than max allowed size of {maximumStandardTransactionMass}")
  else do
    checkInputsStandardInIsolation 0 tx.inputs
    checkOutputsStandardInIsolation S 0 tx.outputs

def minimumRequiredTransactionRelayFee (mass : ℕ) : ℕ :=
  let scaled := mass * S.config.minimumRelayTransactionFee % 2 ^ 64 / 1000
  let minimumFee := if scaled = 0 then S.config.minimumRelayTransactionFee else scaled
  if minimumFee > maxSompi then maxSompi else minimumFee

/-- The loop of `checkTransactionStandardInContext`. A nil entry would be dereferenced. -/
def checkInputsStandardInContext (utxoEntry : ℕ → Option UTXOEntry) :
    ℕ → List DomainTransactionInput → Except Failure Unit
  | _, [] => .ok ()
  | i, input :: inputs =>
    match utxoEntry i with
    | none => .error .nilDereference
    | some entry =>
      match S.getScriptClass entry.scriptPublicKey.script with
      | .scriptHash =>
        let numSigOps := S.getPreciseSigOpCount input.signatureScript entry.scriptPublicKey
        if numSigOps > maxStandardP2SHSigOps then
          .error (.error (transactionRuleError .nonstandard
            s!"transaction input #{i} has {numSigOps} signature operations which is more than the allowed max amount of {maxStandardP2SHSigOps}"))
        else checkInputsStandardInContext utxoEntry (i + 1) inputs
      | .nonStandard =>
        .error (.error (transactionRuleError .nonstandard
          s!"transaction input #{i} has a non-standard script form"))
      | .standard => checkInputsStandardInContext utxoEntry (i + 1) inputs

def checkTransactionStandardInContext (tx : DomainTransaction) (p : Populated) :
    Except Failure Unit := do
  checkInputsStandardInContext S p.utxoEntry 0 tx.inputs
  let minimumFee := minimumRequiredTransactionRelayFee S p.mass
  if p.fee < minimumFee then
    .error (.error (transactionRuleError .insufficientFee
      s!"transaction {tx.id} has {p.fee} fees which is under the required amount of {minimumFee}"))

/-! ## Validation before and after the inputs are known -/

def extractRejectCode : MempoolError → Option RejectCode
  | .rule (.tx code _) => some code
  | _ => none

def notStandard (what : String) (id : DomainTransactionID) (verb : String) (e : MempoolError) :
    MempoolError :=
  let inner := match e with
    | .rule (.tx _ description) => description
    | _ => ""
  transactionRuleError ((extractRejectCode e).getD .nonstandard)
    s!"{what} {id} {verb} not standard: {inner}"

def validateTransactionInIsolation (tp : TransactionsPool) (tx : DomainTransaction) (p : Populated) :
    Except MempoolError Unit :=
  if (tp.allTransactions.lookup tx.id).isSome then
    .error (transactionRuleError .duplicate s!"transaction {tx.id} is already in the mempool")
  else if S.config.acceptNonStandard then .ok ()
  else (checkTransactionStandardInIsolation S tx p).mapError (notStandard "transaction" tx.id "is")

def MempoolUTXOSet.checkDoubleSpends (mpus : MempoolUTXOSet) : List DomainTransactionInput → Except MempoolError Unit
  | [] => .ok ()
  | input :: inputs =>
    match mpus.transactionByPreviousOutpoint.lookup input.previousOutpoint with
    | some existingTransaction =>
      let o := input.previousOutpoint
      .error (transactionRuleError .duplicate
        s!"output ({o.transactionID}: {o.index}) already spent by transaction {existingTransaction.id} in the memory pool")
    | none => mpus.checkDoubleSpends inputs

def validateTransactionPreUTXOEntry (s : State) (tx : DomainTransaction) (p : Populated) :
    Except MempoolError Unit := do
  validateTransactionInIsolation S s.transactionsPool tx p
  s.mempoolUTXOSet.checkDoubleSpends tx.inputs

/-- The entries are read in order up to the first coinbase one. -/
def hasCoinbaseInput (utxoEntry : ℕ → Option UTXOEntry) : ℕ → List DomainTransactionInput → Except Failure Bool
  | _, [] => .ok false
  | i, _ :: inputs =>
    match utxoEntry i with
    | none => .error .nilDereference
    | some entry => if entry.isCoinbase then .ok true else hasCoinbaseInput utxoEntry (i + 1) inputs

def validateTransactionInContext (tx : DomainTransaction) (p : Populated) : Except Failure Unit := do
  let coinbaseInput ← hasCoinbaseInput p.utxoEntry 0 tx.inputs
  let numExtraOuts : ℤ := tx.outputs.length - tx.inputs.length
  if !coinbaseInput && decide (numExtraOuts > 2) && decide (p.fee < numExtraOuts.toNat * sompiPerKaspa % 2 ^ 64) then
    .error (.error (transactionRuleError .spamTx s!"Rejected spam tx {tx.id} from mempool"))
  else if S.config.acceptNonStandard then .ok ()
  else (checkTransactionStandardInContext S tx p).mapError fun
    | .error e => .error (notStandard "transaction inputs" tx.id "are" e)
    | failure => failure

/-! ## Filling in the inputs -/

def TransactionsPool.getParentTransactionsInPool (tp : TransactionsPool) (tx : DomainTransaction) :
    GoMap DomainTransactionID MempoolTransaction :=
  tx.inputs.foldl (fun parents input =>
    match tp.allTransactions.lookup input.previousOutpoint.transactionID with
    | some parent => parents.insert parent.id parent
    | none => parents) ∅

def unacceptedEntry (output : DomainTransactionOutput) : UTXOEntry :=
  ⟨output.value, output.scriptPublicKey, unacceptedDAAScore, false⟩

def fillInputs (parentsInPool : GoMap DomainTransactionID MempoolTransaction) :
    ℕ → List DomainTransactionInput → (ℕ → Option UTXOEntry) → Except Failure (ℕ → Option UTXOEntry)
  | _, [], utxoEntry => .ok utxoEntry
  | i, input :: inputs, utxoEntry =>
    match parentsInPool.lookup input.previousOutpoint.transactionID with
    | none => fillInputs parentsInPool (i + 1) inputs utxoEntry
    | some parent =>
      let outputs := parent.transaction.content.outputs
      match outputs[input.previousOutpoint.index]? with
      | none => .error (.indexOutOfRange input.previousOutpoint.index outputs.length)
      | some relevantOutput =>
        fillInputs parentsInPool (i + 1) inputs (Function.update utxoEntry i (some (unacceptedEntry relevantOutput)))

/-- The entries of the inputs that have none yet, and the fee. -/
def ValidationAnswer.populate (answer : ValidationAnswer) (tx : DomainTransaction) (p : Populated) : Populated where
  utxoEntry i := match p.utxoEntry i with
    | some entry => some entry
    | none => (tx.inputs[i]?).bind fun input => answer.utxoEntry input.previousOutpoint
  fee := answer.fee.getD p.fee
  mass := p.mass

end Kaspad.Mempool
