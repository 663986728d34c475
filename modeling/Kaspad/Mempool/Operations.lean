import Kaspad.Mempool.Pools

/-! # The operations of the mempool

The operations that `mempool.go` exports and the internal functions they are made of, from
`transactions_pool.go`, `orphan_pool.go`, `remove_transaction.go`,
`handle_new_block_transactions.go`, `validate_and_insert_transaction.go` and
`revalidate_high_priority_transactions.go`. `rounds` bounds the number of rounds of each loop whose
length is not known beforehand.
-/

namespace Kaspad.Mempool
open Lib

variable (S : Setup) (rounds : ℕ)

/-! ## Objects -/

def populatedOf (tx : TransactionPointer) : M Populated := do
  pure ((← getState).heap.populated tx.address)

def setPopulated (tx : TransactionPointer) (p : Populated) : M Unit :=
  modifyState fun s => { s with
    heap.populated := Function.update s.heap.populated tx.address p }

def newTransaction (tx : DomainTransaction) (p : Populated) : M TransactionPointer := do
  let s ← getState
  modifyState fun s => { s with
    heap.content := Function.update s.heap.content s.heap.nextAddress tx
    heap.populated := Function.update s.heap.populated s.heap.nextAddress p
    heap.nextAddress := s.heap.nextAddress + 1 }
  pure ⟨s.heap.nextAddress, tx⟩

def newMempoolTransaction (tx : TransactionPointer)
    (parents : GoMap DomainTransactionID MempoolTransaction) (isHighPriority : Bool)
    (addedAtDAAScore : ℕ) : M MempoolTransaction := do
  let s ← getState
  modifyState fun s => { s with
    heap.parentTransactionsInPool :=
      Function.update s.heap.parentTransactionsInPool s.heap.nextAddress parents
    heap.nextAddress := s.heap.nextAddress + 1 }
  pure ⟨s.heap.nextAddress, tx, isHighPriority, addedAtDAAScore⟩

def removeParentTransactionInPool (id : DomainTransactionID) (t : MempoolTransaction) : M Unit :=
  modifyState fun s => { s with
    heap.parentTransactionsInPool := Function.update s.heap.parentTransactionsInPool t.address
      ((s.heap.parentTransactionsInPool t.address).erase id) }

def getVirtualDAAScore : M ℕ := do
  match ← query S (·.virtualDAAScore) with
  | some score => pure score
  | none => fail .virtualDAAScore

def validateWithConsensus (tx : TransactionPointer) : M (Option ConsensusError) := do
  let p ← populatedOf tx
  let answer ← query S (·.validate tx.content p)
  setPopulated tx (answer.populate tx.content p)
  pure answer.error

def ofChecked {α : Type} : Except Failure α → M α
  | .ok a => pure a
  | .error failure => throw failure

/-! ## Adding a transaction to the pool -/

def State.registered (s : State) (t : MempoolTransaction) : State :=
  { s with
    transactionsPool := s.transactionsPool.register (s.heap.parentTransactionsInPool t.address) t
    mempoolUTXOSet := s.mempoolUTXOSet.addTransaction t }

def addMempoolTransaction (t : MempoolTransaction) : M Unit := do
  writeIndex t fun s => s.registered t
  let s ← getState
  let slice ← ofExcept (pushOrdered S s.heap s.transactionsPool.transactionsOrderedByFeeRate t)
  modifyState fun s => { s with transactionsPool.transactionsOrderedByFeeRate := slice }
  if t.isHighPriority then
    modifyState fun s => { s with
      transactionsPool.highPriorityTransactions :=
        s.transactionsPool.highPriorityTransactions.insert t.id t }

def addTransaction (tx : TransactionPointer)
    (parentsInPool : GoMap DomainTransactionID MempoolTransaction) (isHighPriority : Bool) :
    M MempoolTransaction := do
  let virtualDAAScore ← getVirtualDAAScore S
  let t ← newMempoolTransaction tx parentsInPool isHighPriority virtualDAAScore
  addMempoolTransaction S t
  pure t

/-! ## Removing transactions -/

/-- `updateOrphansAfterTransactionRemoved` without redeemers: orphans miss the outputs again. -/
def clearOrphanInputs (removed : DomainTransaction) : M Unit :=
  (List.range removed.outputs.length).forM fun i => do
    match (← getState).orphansPool.orphansByPreviousOutpoint.lookup (removed.outpoint i) with
    | none => pure ()
    | some orphan =>
      let p ← populatedOf orphan.transaction
      setPopulated orphan.transaction { p with
        utxoEntry := fun j =>
          if ((orphan.transaction.content.inputs[j]?).any
              fun input => input.previousOutpoint.transactionID = removed.id) then none
          else p.utxoEntry j }

def updateOrphansAfterTransactionRemoved (removed : DomainTransaction) (removeRedeemers : Bool) :
    M Unit :=
  if removeRedeemers then onOrphans (OrphansPool.removeRedeemersOf removed)
  else clearOrphanInputs removed

/-- The state without one transaction of the pool. -/
def State.unregistered (S : Setup) (s : State) (t : MempoolTransaction) : State :=
  { s with
    mempoolUTXOSet := s.mempoolUTXOSet.removeTransaction s.transactionsPool s.heap t
    transactionsPool := (s.transactionsPool.removeTransaction S s.heap t).2 }

def removeTransactionFromSets (removeRedeemers : Bool) (t : MempoolTransaction) : M Unit := do
  let s ← getState
  writeIndex t fun s => s.unregistered S t
  ofExcept (s.transactionsPool.removeTransaction S s.heap t).1
  updateOrphansAfterTransactionRemoved t.transaction.content removeRedeemers

def removeTransaction (id : DomainTransactionID) (removeRedeemers : Bool) : M Unit := do
  let s ← getState
  if (s.orphansPool.allOrphans.lookup id).isSome then
    onOrphans (OrphansPool.removeOrphan id true)
  else
    match s.transactionsPool.allTransactions.lookup id with
    | none => pure ()
    | some t =>
      match s.transactionsPool.getRedeemers rounds t with
      | none => throw .running
      | some redeemers =>
        if removeRedeemers then do
          (t :: redeemers).forM (removeTransactionFromSets S true)
          onOrphans (OrphansPool.removeRedeemersOf t.transaction.content)
        else do
          redeemers.forM (removeParentTransactionInPool id)
          removeTransactionFromSets S false t

/-! ## Orphans -/

/-- The first input of the orphan that spends the outpoint and has no entry. -/
def unfilledInput (outpoint : DomainOutpoint) (utxoEntry : ℕ → Option UTXOEntry) :
    ℕ → List DomainTransactionInput → Option ℕ
  | _, [] => none
  | i, input :: inputs =>
    if input.previousOutpoint = outpoint ∧ (utxoEntry i).isNone then some i
    else unfilledInput outpoint utxoEntry (i + 1) inputs

def countUnfilledInputs (tx : DomainTransaction) (p : Populated) : ℕ :=
  ((List.range tx.inputs.length).filter fun i => (p.utxoEntry i).isNone).length

def consensusFailure : ConsensusError → MempoolError
  | .immatureSpend =>
    transactionRuleError .immatureSpend "one of the transaction inputs spends an immature UTXO"
  | .missingTxOut outpoints => .rule (.consensus (.missingTxOut outpoints))
  | .rule message => .rule (.consensus (.rule message))
  | .other message => .consensus (.other message)

def unorphanTransaction (orphan : OrphanTransaction) : M Unit := do
  let tx := orphan.transaction
  onOrphans (OrphansPool.removeOrphan orphan.id false)
  match ← validateWithConsensus S tx with
  | some e => fail (consensusFailure e)
  | none =>
    ofChecked (validateTransactionInContext S tx.content (← populatedOf tx))
    let virtualDAAScore ← getVirtualDAAScore S
    let parents := (← getState).transactionsPool.getParentTransactionsInPool tx.content
    let t ← newMempoolTransaction tx parents false virtualDAAScore
    addMempoolTransaction S t

/-- The body of `processOrphansAfterAcceptedTransaction` for one output: the orphans that it
accepted. -/
def processOrphansOfOutput (accepted : DomainTransaction) (i : ℕ) (output : DomainTransactionOutput) :
    M (List TransactionPointer) := do
  match (← getState).orphansPool.orphansByPreviousOutpoint.lookup (accepted.outpoint i) with
  | none => pure []
  | some orphan =>
    let tx := orphan.transaction
    let p ← populatedOf tx
    match unfilledInput (accepted.outpoint i) p.utxoEntry 0 tx.content.inputs with
    | none => pure ()
    | some j =>
      setPopulated tx { p with
        utxoEntry := Function.update p.utxoEntry j (some (unacceptedEntry output)) }
    if countUnfilledInputs tx.content (← populatedOf tx) = 0 then
      tryCatch (do unorphanTransaction S orphan; pure [tx]) fun
        | .error (.rule _) => pure []
        | failure => throw failure
    else pure []

/-- From the output number `i` on. An accepted orphan is not put into the queue, which has one round. -/
def processOrphansFrom (accepted : DomainTransaction) : ℕ → List DomainTransactionOutput → M (List TransactionPointer)
  | _, [] => pure []
  | i, output :: outputs => do
    let orphans ← processOrphansOfOutput S accepted i output
    let more ← processOrphansFrom accepted (i + 1) outputs
    pure (orphans ++ more)

def processOrphansAfterAcceptedTransaction (accepted : DomainTransaction) : M (List TransactionPointer) :=
  processOrphansFrom S accepted 0 accepted.outputs

def addOrphan (tx : TransactionPointer) (isHighPriority : Bool) : M Unit := do
  let virtualDAAScore ← getVirtualDAAScore S
  modifyState fun s => { s with
    orphansPool := s.orphansPool.insertOrphan ⟨tx, isHighPriority, virtualDAAScore⟩ }

def limitOrphanPoolSize : ℕ → M Unit
  | 0 => throw .running
  | rounds + 1 => do
    let op := (← getState).orphansPool
    if GoMap.size op.allOrphans > S.config.maximumOrphanTransactionCount then
      let order ← query S (·.keyOrder)
      match op.randomNonHighPriorityOrphan order with
      | none => pure ()
      | some orphan =>
        onOrphans (OrphansPool.removeOrphan orphan.id false)
        limitOrphanPoolSize rounds

def maybeAddOrphan (tx : TransactionPointer) (isHighPriority : Bool) : M Unit := do
  if S.config.maximumOrphanTransactionCount = 0 then pure ()
  else
    let op := (← getState).orphansPool
    ofExcept (op.checkOrphanDuplicate tx.content)
    ofExcept (OrphansPool.checkOrphanMass S (← populatedOf tx))
    ofExcept (op.checkOrphanDoubleSpend tx.content.id tx.content.inputs)
    addOrphan S tx isHighPriority
    limitOrphanPoolSize S rounds

/-! ## Inserting a transaction -/

def fillInputsAndGetMissingParents (tx : TransactionPointer) :
    M (GoMap DomainTransactionID MempoolTransaction × List DomainOutpoint) := do
  let parentsInPool := (← getState).transactionsPool.getParentTransactionsInPool tx.content
  let p ← populatedOf tx
  let utxoEntry ← ofChecked (fillInputs parentsInPool 0 tx.content.inputs p.utxoEntry)
  setPopulated tx { p with utxoEntry := utxoEntry }
  match ← validateWithConsensus S tx with
  | none => pure (parentsInPool, [])
  | some (.missingTxOut missingOutpoints) => pure (parentsInPool, missingOutpoints)
  | some e => fail (consensusFailure e)

def limitTransactionCountLoop : ℕ → ℕ → M Unit
  | 0, _ => throw .running
  | n + 1, currentIndex => do
    let tp := (← getState).transactionsPool
    let slice := tp.transactionsOrderedByFeeRate
    if GoMap.size tp.allTransactions > S.config.maximumTransactionCount then
      match ← ofChecked (TransactionsPool.skipHighPriority slice.length
          (GoMap.size tp.allTransactions) currentIndex (slice.drop currentIndex)) with
      | none => pure ()
      | some (currentIndex, transactionToRemove) =>
        removeTransaction S rounds transactionToRemove.id true
        if GoMap.size (← getState).transactionsPool.allTransactions ≤ currentIndex then pure ()
        else limitTransactionCountLoop n currentIndex

def limitTransactionCount : M Unit := limitTransactionCountLoop S rounds rounds 0

def populateMass (tx : TransactionPointer) : M Unit := do
  let p ← populatedOf tx
  let mass ← query S (·.transactionMass tx.content)
  if p.mass = 0 then setPopulated tx { p with mass := mass }

def insertTransaction (tx : TransactionPointer) (isHighPriority allowOrphan : Bool) :
    M (List TransactionPointer) := do
  ofExcept (validateTransactionPreUTXOEntry S (← getState) tx.content (← populatedOf tx))
  let (parentsInPool, missingOutpoints) ← fillInputsAndGetMissingParents S tx
  if missingOutpoints.length > 0 then
    if !allowOrphan then
      fail (transactionRuleError .badOrphan
        s!"Transaction {tx.content.id} is an orphan, where allowOrphan = false")
    else do
      maybeAddOrphan S rounds tx isHighPriority
      pure []
  else
    ofChecked (validateTransactionInContext S tx.content (← populatedOf tx))
    let t ← addTransaction S tx parentsInPool isHighPriority
    let acceptedOrphans ← processOrphansAfterAcceptedTransaction S t.transaction.content
    limitTransactionCount S rounds
    pure (tx :: acceptedOrphans)

def validateAndInsertTransaction (tx : DomainTransaction) (p : Populated)
    (isHighPriority allowOrphan : Bool) : M (List TransactionPointer) := do
  let tx ← newTransaction tx p
  populateMass S tx
  insertTransaction S rounds tx isHighPriority allowOrphan

/-! ## New blocks -/

def removeDoubleSpends (tx : DomainTransaction) : M Unit :=
  tx.inputs.forM fun input => do
    match (← getState).mempoolUTXOSet.transactionByPreviousOutpoint.lookup input.previousOutpoint with
    | some redeemer => removeTransaction S rounds redeemer.id true
    | none => pure ()

/-- The loop of `expireOrphanTransactions`: an entry that was deleted before it is reached is not
visited. -/
def expireOrphans (virtualDAAScore : ℕ) (orphans : List OrphanTransaction) : M Unit :=
  orphans.forM fun orphan => do
    if ((← getState).orphansPool.allOrphans.lookup orphan.id).isSome && !orphan.isHighPriority &&
        decide (sub64 virtualDAAScore orphan.addedAtDAAScore > S.config.orphanExpireIntervalDAAScore) then
      onOrphans (OrphansPool.removeOrphan orphan.id false)

def expireOrphanTransactions : M Unit := do
  let virtualDAAScore ← getVirtualDAAScore S
  let op := (← getState).orphansPool
  if sub64 virtualDAAScore op.lastExpireScan < S.config.orphanExpireScanIntervalDAAScore then pure ()
  else
    let order ← query S (·.keyOrder)
    expireOrphans S virtualDAAScore ((GoMap.rangeBy order op.allOrphans).map Sigma.snd)
    modifyState fun s => { s with orphansPool.lastExpireScan := virtualDAAScore }

def expireTransactions (virtualDAAScore : ℕ) (transactions : List MempoolTransaction) : M Unit :=
  transactions.forM fun t => do
    if ((← getState).transactionsPool.allTransactions.lookup t.id).isSome && !t.isHighPriority &&
        decide (sub64 virtualDAAScore t.addedAtDAAScore > S.config.transactionExpireIntervalDAAScore) then
      removeTransaction S rounds t.id true

def expireOldTransactions : M Unit := do
  let virtualDAAScore ← getVirtualDAAScore S
  let tp := (← getState).transactionsPool
  let scanIntervalPassed ← query S (·.scanIntervalPassed)
  if sub64 virtualDAAScore tp.lastExpireScanDAAScore
      < S.config.transactionExpireScanIntervalDAAScore ∨ !scanIntervalPassed then pure ()
  else
    let order ← query S (·.keyOrder)
    expireTransactions S rounds virtualDAAScore ((GoMap.rangeBy order tp.allTransactions).map Sigma.snd)
    modifyState fun s => { s with transactionsPool.lastExpireScanDAAScore := virtualDAAScore }

def handleTransactions : List DomainTransaction → M (List TransactionPointer)
  | [] => pure []
  | tx :: transactions => do
    removeTransaction S rounds tx.id false
    removeDoubleSpends S rounds tx
    onOrphans (OrphansPool.removeOrphan tx.id false)
    let acceptedOrphans ← processOrphansAfterAcceptedTransaction S tx
    let more ← handleTransactions transactions
    pure (acceptedOrphans ++ more)

def handleNewBlockTransactions : List DomainTransaction → M (List TransactionPointer)
  | [] => throw (.indexOutOfRange 1 0)
  | _ :: transactions => do
    let acceptedOrphans ← handleTransactions S rounds transactions
    expireOrphanTransactions S
    expireOldTransactions S rounds
    pure acceptedOrphans

/-! ## Other operations -/

def removeInvalidTransactions (invalid : List (DomainTransactionID × ConsensusError)) : M Unit :=
  invalid.forM fun tx =>
    let removeRedeemers := match tx.2 with
      | .missingTxOut _ => false
      | _ => true
    removeTransaction S rounds tx.1 removeRedeemers

structure TxNode where
  children : List DomainTransactionID
  nonVisitedParents : ℤ
  tx : Option MempoolTransaction
  visited : Bool

abbrev TxDAG := GoMap DomainTransactionID TxNode

def maybeAddNode (highPriority : GoMap DomainTransactionID MempoolTransaction) (dag : TxDAG)
    (id : DomainTransactionID) : TxDAG × TxNode :=
  match dag.lookup id with
  | some node => (dag, node)
  | none =>
    let node := ⟨[], 0, highPriority.lookup id, false⟩
    (dag.insert id node, node)

/-- The high-priority parents of a high-priority transaction, each one knowing it as a child. -/
def linkParents (highPriority : GoMap DomainTransactionID MempoolTransaction) (id : DomainTransactionID) :
    List DomainTransactionInput → TxDAG → List DomainTransactionID → TxDAG × List DomainTransactionID
  | [], dag, parents => (dag, parents)
  | input :: inputs, dag, parents =>
    let parent := input.previousOutpoint.transactionID
    if (highPriority.lookup parent).isNone then linkParents highPriority id inputs dag parents
    else
      let (dag, node) := maybeAddNode highPriority dag parent
      linkParents highPriority id inputs
        (dag.insert parent { node with children := node.children.insert id }) (parents.insert parent)

def buildTxDAG (highPriority : GoMap DomainTransactionID MempoolTransaction) :
    List MempoolTransaction → TxDAG × List DomainTransactionID → TxDAG × List DomainTransactionID
  | [], result => result
  | t :: transactions, (dag, queue) =>
    let (dag, _) := maybeAddNode highPriority dag t.id
    let (dag, parents) := linkParents highPriority t.id t.transaction.content.inputs dag []
    let (dag, node) := maybeAddNode highPriority dag t.id
    let dag := dag.insert t.id { node with nonVisitedParents := parents.length }
    buildTxDAG highPriority transactions (dag, if parents.length = 0 then queue ++ [t.id] else queue)

def revalidateTransaction (t : MempoolTransaction) : M Bool := do
  let p ← populatedOf t.transaction
  setPopulated t.transaction { p with utxoEntry := fun _ => none }
  let (_, missingParents) ← fillInputsAndGetMissingParents S t.transaction
  if missingParents.length > 0 then
    removeTransaction S rounds t.id false
    pure false
  else pure true

/-- Counts a visited parent of each child, and queues the children that have no other. -/
def visitChildren : List DomainTransactionID → TxDAG × List DomainTransactionID → TxDAG × List DomainTransactionID
  | [], result => result
  | child :: children, (dag, queue) =>
    match dag.lookup child with
    | none => visitChildren children (dag, queue)
    | some node =>
      let left := node.nonVisitedParents - 1
      visitChildren children (dag.insert child { node with nonVisitedParents := left },
        if left = 0 then queue ++ [child] else queue)

def revalidateLoop : ℕ → TxDAG → List DomainTransactionID → M (List TransactionPointer)
  | _, _, [] => pure []
  | 0, _, _ :: _ => throw .running
  | n + 1, dag, id :: queue => do
    match dag.lookup id with
    | none => throw .nilDereference
    | some node =>
      if node.visited then revalidateLoop n dag queue
      else
        match node.tx with
        | none => throw .nilDereference
        | some t =>
          let isValid ← revalidateTransaction S rounds t
          let order ← query S (·.keyOrder)
          let children := node.children.insertionSort fun a b => order a ≤ order b
          let (dag, queue) := visitChildren children (dag.insert id { node with visited := true }, queue)
          let more ← revalidateLoop n dag queue
          pure (if isValid then t.transaction :: more else more)

def revalidateHighPriorityTransactions : M (List TransactionPointer) := do
  let highPriority := (← getState).transactionsPool.highPriorityTransactions
  let order ← query S (·.keyOrder)
  let (dag, queue) := buildTxDAG highPriority ((GoMap.rangeBy order highPriority).map Sigma.snd)
    (∅, [])
  revalidateLoop S rounds rounds dag queue

/-! ## Runs -/

inductive Op
  | validateAndInsertTransaction (tx : DomainTransaction) (p : Populated) (isHighPriority allowOrphan : Bool)
  | handleNewBlockTransactions (transactions : List DomainTransaction)
  | removeTransaction (id : DomainTransactionID) (removeRedeemers : Bool)
  | removeInvalidTransactions (invalid : List (DomainTransactionID × ConsensusError))
  | revalidateHighPriorityTransactions

def Op.call : Op → M Unit
  | .validateAndInsertTransaction tx p isHighPriority allowOrphan =>
    discard (Mempool.validateAndInsertTransaction S rounds tx p isHighPriority allowOrphan)
  | .handleNewBlockTransactions transactions =>
    discard (Mempool.handleNewBlockTransactions S rounds transactions)
  | .removeTransaction id removeRedeemers => Mempool.removeTransaction S rounds id removeRedeemers
  | .removeInvalidTransactions invalid => Mempool.removeInvalidTransactions S rounds invalid
  | .revalidateHighPriorityTransactions =>
    discard (Mempool.revalidateHighPriorityTransactions S rounds)

def World.new : World := ⟨State.new, 0, []⟩

/-- A run of calls, each with its number of rounds. -/
def runOps (run : List (ℕ × Op)) (w : World) : World :=
  run.foldl (fun w step => ((step.2.call S step.1).exec w).2) w

def Op.submitted : Op → Option DomainTransaction
  | .validateAndInsertTransaction tx _ _ _ => some tx
  | _ => none

/-- No two submitted transactions have the same ID, a hash, and different inputs. -/
def IDsDetermineOutpoints (run : List (ℕ × Op)) : Prop :=
  ∀ step ∈ run, ∀ tx ∈ step.2.submitted, ∀ step' ∈ run, ∀ tx' ∈ step'.2.submitted,
    tx.id = tx'.id → tx.outpoints = tx'.outpoints

end Kaspad.Mempool
