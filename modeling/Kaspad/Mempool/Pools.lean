import Kaspad.Lib.SortedList
import Kaspad.Mempool.Validation

/-! # The three pools of the mempool

`mempool_utxo_set.go`, `model/ordered_transactions_by_fee_rate.go`, the bookkeeping of
`transactions_pool.go`, and the part of `orphan_pool.go` that touches the orphan pool only.
-/

namespace Kaspad.Mempool
open Lib

/-! ## The double-spend index -/

namespace MempoolUTXOSet

/-- The outpoint it deletes from the unspent outputs has the ID of the added transaction. -/
def addInputs (t : MempoolTransaction) : ℕ → List DomainTransactionInput → MempoolUTXOSet → MempoolUTXOSet
  | _, [], mpus => mpus
  | i, input :: inputs, mpus =>
    addInputs t (i + 1) inputs
      { poolUnspentOutputs := mpus.poolUnspentOutputs.erase ⟨t.id, i⟩
        transactionByPreviousOutpoint :=
          mpus.transactionByPreviousOutpoint.insert input.previousOutpoint t }

def addOutputs (t : MempoolTransaction) : ℕ → List DomainTransactionOutput → MempoolUTXOSet → MempoolUTXOSet
  | _, [], mpus => mpus
  | i, output :: outputs, mpus =>
    addOutputs t (i + 1) outputs { mpus with
        poolUnspentOutputs := mpus.poolUnspentOutputs.insert ⟨t.id, i⟩ (some (unacceptedEntry output)) }

def addTransaction (mpus : MempoolUTXOSet) (t : MempoolTransaction) : MempoolUTXOSet :=
  addOutputs t 0 t.transaction.content.outputs (addInputs t 0 t.transaction.content.inputs mpus)

/-- An outpoint of a transaction that is still in the pool becomes unspent again. -/
def removeInputs (tp : TransactionsPool) (utxoEntry : ℕ → Option UTXOEntry) :
    ℕ → List DomainTransactionInput → MempoolUTXOSet → MempoolUTXOSet
  | _, [], mpus => mpus
  | i, input :: inputs, mpus =>
    removeInputs tp utxoEntry (i + 1) inputs
      { poolUnspentOutputs :=
          if (tp.allTransactions.lookup input.previousOutpoint.transactionID).isSome then
            mpus.poolUnspentOutputs.insert input.previousOutpoint (utxoEntry i)
          else mpus.poolUnspentOutputs
        transactionByPreviousOutpoint :=
          mpus.transactionByPreviousOutpoint.erase input.previousOutpoint }

def removeTransaction (mpus : MempoolUTXOSet) (tp : TransactionsPool) (heap : Heap)
    (t : MempoolTransaction) : MempoolUTXOSet :=
  let removed := removeInputs tp (heap.populated t.transaction.address).utxoEntry 0
    t.transaction.content.inputs mpus
  { removed with
    poolUnspentOutputs := (List.range t.transaction.content.outputs.length).foldl
      (fun outputs i => outputs.erase ⟨t.id, i⟩) removed.poolUnspentOutputs }

end MempoolUTXOSet

/-! ## The list ordered by fee rate -/

section
variable (S : Setup) (heap : Heap)

def feeRateOf (t : MempoolTransaction) : ℚ :=
  S.feeRate (heap.populated t.transaction.address).fee (heap.populated t.transaction.address).mass

def notBefore (t element : MempoolTransaction) : Bool :=
  decide (feeRateOf S heap t < feeRateOf S heap element) ||
    (decide (feeRateOf S heap element = feeRateOf S heap t) && decide (t.id ≤ element.id))

def findTransactionIndex (slice : List MempoolTransaction) (t : MempoolTransaction) :
    Except MempoolError (ℕ × Bool) :=
  let populated := heap.populated t.transaction.address
  if populated.fee = 0 ∨ populated.mass = 0 then .error .feeOrMassNotPopulated
  else
    let index := sortSearch slice.length fun i => (slice[i]?).any (notBefore S heap t)
    .ok (index, (slice[index]?).any fun element => element.id = t.id)

def pushOrdered (slice : List MempoolTransaction) (t : MempoolTransaction) :
    Except MempoolError (List MempoolTransaction) := do
  let (index, _) ← findTransactionIndex S heap slice t
  pure (slice.take index ++ t :: slice.drop index)

/-- The index that was found is in range, so the error of `RemoveAtIndex` cannot come up. -/
def removeOrdered (slice : List MempoolTransaction) (t : MempoolTransaction) :
    Except MempoolError (List MempoolTransaction) := do
  let (index, wasFound) ← findTransactionIndex S heap slice t
  if wasFound then pure (slice.eraseIdx index) else .error (.transactionNotFound t.id)

end

/-! ## The transactions pool -/

namespace TransactionsPool

/-- The part of `addMempoolTransaction` before the double-spend index is written. -/
def register (tp : TransactionsPool) (parents : GoMap DomainTransactionID MempoolTransaction)
    (t : MempoolTransaction) : TransactionsPool :=
  { tp with
    allTransactions := tp.allTransactions.insert t.id t
    chainedTransactionsByParentID := parents.entries.foldl (fun chained entry =>
      let parentID := entry.2.id
      chained.insert parentID ((chained.lookup parentID).getD [] ++ [t]))
      tp.chainedTransactionsByParentID }

/-- The loop of `getRedeemers`, with the top of the stack first, for at most the given number of
rounds. -/
def getRedeemersLoop (tp : TransactionsPool) :
    ℕ → List MempoolTransaction → List MempoolTransaction → Option (List MempoolTransaction)
  | _, [], redeemers => some redeemers
  | 0, _ :: _, _ => none
  | rounds + 1, current :: stack, redeemers =>
    let chained := (tp.chainedTransactionsByParentID.lookup current.id).getD []
    getRedeemersLoop tp rounds (chained.reverse ++ stack) (redeemers ++ chained)

def getRedeemers (tp : TransactionsPool) (rounds : ℕ) (t : MempoolTransaction) : Option (List MempoolTransaction) :=
  getRedeemersLoop tp rounds [t] []

/-- An error other than "not found" comes back after the transaction has left `allTransactions` only. -/
def removeTransaction (S : Setup) (heap : Heap) (tp : TransactionsPool) (t : MempoolTransaction) :
    Except MempoolError Unit × TransactionsPool :=
  let tp₁ := { tp with allTransactions := tp.allTransactions.erase t.id }
  let forget (tp : TransactionsPool) : TransactionsPool :=
    { tp with
      highPriorityTransactions := tp.highPriorityTransactions.erase t.id
      chainedTransactionsByParentID := tp.chainedTransactionsByParentID.erase t.id }
  match removeOrdered S heap tp.transactionsOrderedByFeeRate t with
  | .ok slice => (.ok (), forget { tp₁ with transactionsOrderedByFeeRate := slice })
  | .error (.transactionNotFound _) => (.ok (), forget tp₁)
  | .error e => (.error e, tp₁)

/-- The inner loop of `limitTransactionCount`, over the ordered list from `currentIndex` on. -/
def skipHighPriority (length transactionCount : ℕ) :
    ℕ → List MempoolTransaction → Except Failure (Option (ℕ × MempoolTransaction))
  | currentIndex, [] => .error (.indexOutOfRange currentIndex length)
  | currentIndex, t :: rest =>
    if !t.isHighPriority then .ok (some (currentIndex, t))
    else if transactionCount ≤ currentIndex + 1 then .ok none
    else skipHighPriority length transactionCount (currentIndex + 1) rest

end TransactionsPool

/-! ## The orphan pool -/

namespace OrphansPool

abbrev O (α : Type) := Prog OrphansPool Failure α

def removeInputs (id : DomainTransactionID) : ℕ → List DomainTransactionInput → O Unit
  | _, [] => pure ()
  | i, input :: inputs => do
    if ((← get).orphansByPreviousOutpoint.lookup input.previousOutpoint).isNone then
      throw (.error (.orphanInputNotFound i id input.previousOutpoint))
    modify fun op => { op with
      orphansByPreviousOutpoint := op.orphansByPreviousOutpoint.erase input.previousOutpoint }
    removeInputs id (i + 1) inputs

def forRedeemersOf (remove : DomainTransactionID → O Unit) (tx : DomainTransaction) : O Unit :=
  (List.range tx.outputs.length).forM fun i => do
    match (← get).orphansByPreviousOutpoint.lookup (tx.outpoint i) with
    | some orphan => remove orphan.id
    | none => pure ()

/-- Every level deletes one orphan, so their number bounds the depth. -/
def removeOrphanBounded : ℕ → DomainTransactionID → Bool → O Unit
  | 0, id, _ => do
    if ((← get).allOrphans.lookup id).isSome then throw .running
  | depth + 1, id, removeRedeemers => do
    match (← get).allOrphans.lookup id with
    | none => pure ()
    | some orphan =>
      modify fun op => { op with allOrphans := op.allOrphans.erase id }
      removeInputs id 0 orphan.transaction.content.inputs
      if removeRedeemers then
        forRedeemersOf (fun redeemer => removeOrphanBounded depth redeemer true) orphan.transaction.content

def removeOrphan (id : DomainTransactionID) (removeRedeemers : Bool) : O Unit := do
  removeOrphanBounded (GoMap.size (← get).allOrphans) id removeRedeemers

def removeRedeemersOf (tx : DomainTransaction) : O Unit :=
  forRedeemersOf (fun redeemer => removeOrphan redeemer true) tx

def insertOrphan (op : OrphansPool) (orphan : OrphanTransaction) : OrphansPool :=
  { op with
    allOrphans := op.allOrphans.insert orphan.id orphan
    orphansByPreviousOutpoint := orphan.transaction.content.inputs.foldl
      (fun orphans input => orphans.insert input.previousOutpoint orphan)
      op.orphansByPreviousOutpoint }

def checkOrphanDuplicate (op : OrphansPool) (tx : DomainTransaction) : Except MempoolError Unit :=
  if (op.allOrphans.lookup tx.id).isSome then
    .error (transactionRuleError .duplicate
      s!"Orphan transacion {tx.id} is already in the orphan pool")
  else .ok ()

def checkOrphanMass (S : Setup) (p : Populated) : Except MempoolError Unit :=
  let maximum := S.config.maximumOrphanTransactionMass
  if p.mass > maximum then
    .error (transactionRuleError .badOrphan
      s!"orphan transaction size of {p.mass} bytes is larger than max allowed size of {maximum} bytes")
  else .ok ()

def checkOrphanDoubleSpend (op : OrphansPool) (id : DomainTransactionID) :
    List DomainTransactionInput → Except MempoolError Unit
  | [] => .ok ()
  | input :: inputs =>
    match op.orphansByPreviousOutpoint.lookup input.previousOutpoint with
    | some doubleSpendOrphan =>
      .error (transactionRuleError .duplicate
        s!"Orphan transacion {id} is double spending an input from already existing orphan {doubleSpendOrphan.id}")
    | none => checkOrphanDoubleSpend op id inputs

def randomNonHighPriorityOrphan (order : DomainTransactionID → ℕ) (op : OrphansPool) :
    Option OrphanTransaction :=
  ((GoMap.rangeBy order op.allOrphans).map Sigma.snd).find? fun orphan => !orphan.isHighPriority

end OrphansPool

def onOrphans {α : Type} (m : OrphansPool.O α) : M α := do
  let s ← getState
  let (result, op) := m.exec s.orphansPool
  modifyState fun s => { s with orphansPool := op }
  match result with
  | .ok a => pure a
  | .error failure => throw failure

end Kaspad.Mempool
