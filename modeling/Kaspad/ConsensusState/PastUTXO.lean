import Kaspad.BlockValidator.BodyInIsolation
import Kaspad.Coinbase.Manager
import Kaspad.Ghostdag.Past
import Kaspad.TransactionValidator.InContext
import Kaspad.UTXO.AddTransaction
import Kaspad.UTXO.Serialization

/-! # The past UTXO of a block

`calculate_past_utxo.go`, `populate_tx_with_utxo_entries.go`, `multisets.go` and `verify_and_build_utxo.go` of
`domain/consensus/processes/consensusstatemanager`: the transactions of the merge set that a block accepts,
the UTXO diff and the multiset after them, and the checks on the block that depend on them.

A multiset is an element of a commutative group, to which the bytes of an entry are added and from which
they are taken away.
-/

namespace Kaspad.ConsensusState
open Lib Ghostdag

inductive PastUTXOError
  | ghostdag (error : GhostdagError)
  | notFound (blockHash : DomainHash)
  | diff (error : DiffError)
  | rule (error : RuleError)
  | coinbase (error : CoinbaseError)
  | nilHash
  | indexOutOfRange
  deriving DecidableEq, Repr

/-- `Digest` is the type of transaction hashes and `Multiset` the type of multisets. -/
structure UTXOManager (Digest Multiset : Type) extends CoinbaseManager where
  ghostdagDataStore : Stores
  transactionValidator : TransactionValidator
  transactionHash : DomainTransaction → Digest
  calculateIDMerkleRoot : List DomainTransaction → DomainHash
  element : List UInt8 → Multiset
  multisetHash : Multiset → DomainHash

/-! ## Population -/

def inputUTXOEntry (virtualUTXOSet : UTXOSet) (utxoDiff : Option MutableUTXODiff) (prefilled : Option UTXOEntry)
    (outpoint : DomainOutpoint) : Option UTXOEntry :=
  match prefilled with
  | some utxoEntry => some utxoEntry
  | none =>
    match utxoDiff with
    | none => virtualUTXOSet outpoint
    | some utxoDiff =>
      match utxoDiff.toAdd.get outpoint with
      | some utxoEntry => some utxoEntry
      | none => if utxoDiff.toRemove.contains outpoint then none else virtualUTXOSet outpoint

/-- The loop of `populateTransactionWithUTXOEntriesFromVirtualOrDiff`. -/
def populateInputs (virtualUTXOSet : UTXOSet) (utxoDiff : Option MutableUTXODiff) :
    List PopulatedInput → List DomainOutpoint × List UTXOEntry
  | [] => ([], [])
  | (input, prefilled) :: inputs =>
    let (missing, utxoEntries) := populateInputs virtualUTXOSet utxoDiff inputs
    match inputUTXOEntry virtualUTXOSet utxoDiff prefilled input.previousOutpoint with
    | some utxoEntry => (missing, utxoEntry :: utxoEntries)
    | none => (input.previousOutpoint :: missing, utxoEntries)

def populateTransactionWithUTXOEntriesFromVirtualOrDiff (virtualUTXOSet : UTXOSet)
    (utxoDiff : Option MutableUTXODiff) (inputs : List PopulatedInput) : Except RuleError (List UTXOEntry) :=
  let (missing, utxoEntries) := populateInputs virtualUTXOSet utxoDiff inputs
  if missing ≠ [] then .error (.missingTxOut missing) else .ok utxoEntries

def unpopulated (tx : DomainTransaction) : List PopulatedInput := tx.inputs.map fun input => (input, none)

/-! ## Acceptance -/

variable {Digest Multiset : Type} (m : UTXOManager Digest Multiset)

/-- With the acceptance data that `applyMergeSetBlocks` makes of the answer. The fee of a rejected transaction is
left out. -/
def maybeAcceptTransaction (virtualUTXOSet : UTXOSet) (isSelectedParent : Bool) (blockDAAScore : ℕ)
    (tx : DomainTransaction) (accumulatedUTXODiff : MutableUTXODiff) :
    Except PastUTXOError (TransactionAcceptanceData × MutableUTXODiff) :=
  let notAccepted := (⟨tx, 0, false, []⟩, accumulatedUTXODiff)
  let accept (fee : ℕ) (utxoEntries : List UTXOEntry) := do
    let accumulatedUTXODiff ←
      (accumulatedUTXODiff.addTransaction tx utxoEntries blockDAAScore).mapError PastUTXOError.diff
    pure (⟨tx, fee, true, utxoEntries⟩, accumulatedUTXODiff)
  match populateTransactionWithUTXOEntriesFromVirtualOrDiff virtualUTXOSet (some accumulatedUTXODiff)
      (unpopulated tx) with
  | .error _ => pure notAccepted
  | .ok utxoEntries =>
    -- Only the coinbase of the selected parent is accepted.
    if isCoinBase tx then if !isSelectedParent then pure notAccepted else accept 0 utxoEntries
    else
      match m.transactionValidator.validateTransactionInContextAndPopulateFee blockDAAScore tx
          (utxoEntries.map some) with
      | .error _ => pure notAccepted
      | .ok fee => accept fee utxoEntries

def acceptTransactions (virtualUTXOSet : UTXOSet) (isSelectedParent : Bool) (blockDAAScore : ℕ) :
    List DomainTransaction → MutableUTXODiff → Except PastUTXOError (List TransactionAcceptanceData × MutableUTXODiff)
  | [], accumulatedUTXODiff => pure ([], accumulatedUTXODiff)
  | tx :: txs, accumulatedUTXODiff => do
    let (acceptance, accumulatedUTXODiff) ←
      maybeAcceptTransaction m virtualUTXOSet isSelectedParent blockDAAScore tx accumulatedUTXODiff
    let (acceptances, accumulatedUTXODiff) ←
      acceptTransactions virtualUTXOSet isSelectedParent blockDAAScore txs accumulatedUTXODiff
    pure (acceptance :: acceptances, accumulatedUTXODiff)

def acceptBlocks (virtualUTXOSet : UTXOSet) (blockDAAScore : ℕ) :
    Bool → List (DomainHash × DomainBlock) → MutableUTXODiff → Except PastUTXOError (AcceptanceData × MutableUTXODiff)
  | _, [], accumulatedUTXODiff => pure ([], accumulatedUTXODiff)
  | isSelectedParent, (mergeSetBlockHash, mergeSetBlock) :: blocks, accumulatedUTXODiff => do
    let (acceptances, accumulatedUTXODiff) ← acceptTransactions m virtualUTXOSet isSelectedParent blockDAAScore
      mergeSetBlock.transactions accumulatedUTXODiff
    let (acceptanceData, accumulatedUTXODiff) ← acceptBlocks virtualUTXOSet blockDAAScore false blocks
      accumulatedUTXODiff
    pure (⟨mergeSetBlockHash, acceptances⟩ :: acceptanceData, accumulatedUTXODiff)

def findBlocks : List DomainHash → Except PastUTXOError (List (DomainHash × DomainBlock))
  | [] => pure []
  | hash :: hashes =>
    match m.blocks.lookup hash with
    | none => throw (.notFound hash)
    | some block => do
      let blocks ← findBlocks hashes
      pure ((hash, block) :: blocks)

def applyMergeSetBlocks (virtualUTXOSet : UTXOSet) (blockHash : DomainHash)
    (selectedParentPastUTXODiff : MutableUTXODiff) (daaScore : ℕ) :
    Except PastUTXOError (AcceptanceData × MutableUTXODiff) := do
  let mergeSetHashes ← (getSortedMergeSet m.ghostdagDataStore blockHash).mapError .ghostdag
  let mergeSetBlocks ← findBlocks m mergeSetHashes
  acceptBlocks m virtualUTXOSet daaScore true mergeSetBlocks selectedParentPastUTXODiff

/-! ## The multiset -/

variable [AddCommGroup Multiset]

def removeFromMultiset (inputs : List (DomainOutpoint × UTXOEntry)) (multiset : Multiset) : Multiset :=
  inputs.foldl (fun multiset (outpoint, entry) => multiset - m.element (serializeUTXO entry outpoint)) multiset

def addToMultiset (outputs : List (DomainOutpoint × UTXOEntry)) (multiset : Multiset) : Multiset :=
  outputs.foldl (fun multiset (outpoint, entry) => multiset + m.element (serializeUTXO entry outpoint)) multiset

def addTransactionToMultiset (multiset : Multiset) (transaction : DomainTransaction) (utxoEntries : List UTXOEntry)
    (blockDAAScore : ℕ) (isCoinbase : Bool) : Multiset :=
  addToMultiset m (outputEntries transaction isCoinbase blockDAAScore)
    (removeFromMultiset m (transaction.outpoints.zip utxoEntries) multiset)

/-- The inner loop of `calculateMultiset`: the first transaction of a block is taken for a coinbase. -/
def addTransactionsToMultiset (daaScore : ℕ) : ℕ → List TransactionAcceptanceData → Multiset → Multiset
  | _, [], ms => ms
  | i, tx :: txs, ms =>
    addTransactionsToMultiset daaScore (i + 1) txs (if !tx.isAccepted then ms
      else addTransactionToMultiset m ms tx.transaction tx.transactionInputUTXOEntries daaScore (i == 0))

/-- The loops of `calculateMultiset`, from the multiset of the selected parent. -/
def addBlocksToMultiset (daaScore : ℕ) (acceptanceData : AcceptanceData) (ms : Multiset) : Multiset :=
  acceptanceData.foldl (fun ms block => addTransactionsToMultiset m daaScore 0 block.transactionAcceptanceData ms) ms

def calculateMultiset (multisetStore : GoMap DomainHash Multiset) (blockHash : DomainHash)
    (acceptanceData : AcceptanceData) (blockGHOSTDAGData : BlockGHOSTDAGData) (daaScore : ℕ) :
    Except PastUTXOError Multiset :=
  let get (hash : DomainHash) : Except PastUTXOError Multiset :=
    match multisetStore.lookup hash with
    | some ms => .ok ms
    | none => .error (.notFound hash)
  if blockHash = m.genesisHash then get blockHash
  else
    match blockGHOSTDAGData.selectedParent with
    | none => .error .nilHash
    | some selectedParent => do
      let ms ← get selectedParent
      pure (addBlocksToMultiset m daaScore acceptanceData ms)

def calculatePastUTXOAndAcceptanceData (virtualUTXOSet : UTXOSet) (multisetStore : GoMap DomainHash Multiset)
    (blockHash : DomainHash) (selectedParentPastUTXO : MutableUTXODiff) :
    Except PastUTXOError (MutableUTXODiff × AcceptanceData × Multiset) := do
  let blockGHOSTDAGData ← (m.ghostdagDataStore.get (some blockHash) false).mapError .ghostdag
  let daaScore ← (CoinbaseManager.find m.daaScore blockHash).mapError .coinbase
  let (acceptanceData, utxoDiff) ← applyMergeSetBlocks m virtualUTXOSet blockHash selectedParentPastUTXO daaScore
  let multiset ← calculateMultiset m multisetStore blockHash acceptanceData blockGHOSTDAGData daaScore
  pure (utxoDiff, acceptanceData, multiset)

/-! ## Verification of a block -/

omit [AddCommGroup Multiset]

def validateUTXOCommitment (block : DomainBlock) (blockHash : DomainHash) (multiset : Multiset) :
    Except RuleError Unit :=
  if blockHash = m.genesisHash then .ok ()
  else
    let multisetHash := m.multisetHash multiset
    if block.header.utxoCommitment ≠ multisetHash then
      .error (.rule .badUTXOCommitment
        s!"block {blockHash} UTXO commitment is invalid - block header indicates {block.header.utxoCommitment}, but calculated value is {multisetHash}")
    else .ok ()

def calculateAcceptedIDMerkleRoot (acceptanceData : AcceptanceData) : DomainHash :=
  let accepted := acceptanceData.flatMap fun block => block.transactionAcceptanceData.filter (·.isAccepted)
  m.calculateIDMerkleRoot ((accepted.map (·.transaction)).mergeSort fun a b => a.id ≤ b.id)

def validateAcceptedIDMerkleRoot (block : DomainBlock) (blockHash : DomainHash) (acceptanceData : AcceptanceData) :
    Except RuleError Unit :=
  let calculated := calculateAcceptedIDMerkleRoot m acceptanceData
  if block.header.acceptedIDMerkleRoot ≠ calculated then
    .error (.rule .badMerkleRoot
      s!"block {blockHash} accepted ID merkle root is invalid - block header indicates {block.header.utxoCommitment}, but calculated value is {calculated}")
  else .ok ()

def validateCoinbaseTransaction [DecidableEq Digest] (blockHash : DomainHash) (acceptanceData : AcceptanceData)
    (coinbaseTransaction : DomainTransaction) : Except PastUTXOError Unit := do
  let (_, coinbaseData, _) ← (m.extract coinbaseTransaction).mapError .coinbase
  let ghostdagData ← (m.ghostdagDataStore.get (some blockHash) false).mapError .ghostdag
  let (expectedCoinbaseTransaction, _) ←
    (m.expectedCoinbaseTransaction blockHash ghostdagData acceptanceData coinbaseData).mapError .coinbase
  if m.transactionHash coinbaseTransaction ≠ m.transactionHash expectedCoinbaseTransaction then
    throw (.rule (.rule .badCoinbaseTransaction "coinbase transaction is not built as expected"))

/-- The loop of `validateBlockTransactionsAgainstPastUTXO`. -/
def validateTransactionsAgainstPastUTXO (virtualUTXOSet : UTXOSet) (pastUTXODiff : MutableUTXODiff) (daaScore : ℕ) :
    List DomainTransaction → Except RuleError Unit
  | [] => .ok ()
  | tx :: txs => do
    let utxoEntries ← populateTransactionWithUTXOEntriesFromVirtualOrDiff virtualUTXOSet (some pastUTXODiff)
      (unpopulated tx)
    let _ ← m.transactionValidator.validateTransactionInContextAndPopulateFee daaScore tx (utxoEntries.map some)
    validateTransactionsAgainstPastUTXO virtualUTXOSet pastUTXODiff daaScore txs

def verifyUTXO [DecidableEq Digest] (virtualUTXOSet : UTXOSet) (block : DomainBlock) (blockHash : DomainHash)
    (pastUTXODiff : MutableUTXODiff) (acceptanceData : AcceptanceData) (multiset : Multiset) :
    Except PastUTXOError Unit := do
  (validateUTXOCommitment m block blockHash multiset).mapError .rule
  (validateAcceptedIDMerkleRoot m block blockHash acceptanceData).mapError .rule
  match block.transactions with
  | [] => throw .indexOutOfRange
  | coinbaseTransaction :: transactions =>
    validateCoinbaseTransaction m blockHash acceptanceData coinbaseTransaction
    let daaScore ← (CoinbaseManager.find m.daaScore blockHash).mapError .coinbase
    (validateTransactionsAgainstPastUTXO m virtualUTXOSet pastUTXODiff daaScore transactions).mapError .rule

/-! ## The past UTXO of a stored block

`restorePastUTXO` of `domain/consensus/processes/consensusstatemanager/calculate_past_utxo.go`: the diffs
along the diff children of a block, put together from the virtual block down.
-/

inductive RestoreError
  | notFound (blockHash : DomainHash)
  | diff (error : DiffError)
  /-- The diff children never end. -/
  | endless
  deriving DecidableEq, Repr

/-- The first loop of `restorePastUTXO`. A path that is longer than the store has a block twice. -/
def collectUTXODiffs (utxoDiffs : GoMap DomainHash MutableUTXODiff) (utxoDiffChildren : GoMap DomainHash DomainHash) :
    ℕ → DomainHash → Except RestoreError (List MutableUTXODiff)
  | 0, _ => .error .endless
  | n + 1, nextBlockHash =>
    match utxoDiffs.lookup nextBlockHash with
    | none => .error (.notFound nextBlockHash)
    | some utxoDiff =>
      match utxoDiffChildren.lookup nextBlockHash with
      | none => .ok [utxoDiff]
      | some child => do
        let rest ← collectUTXODiffs utxoDiffs utxoDiffChildren n child
        pure (utxoDiff :: rest)

def restorePastUTXO (utxoDiffs : GoMap DomainHash MutableUTXODiff) (utxoDiffChildren : GoMap DomainHash DomainHash)
    (blockHash : DomainHash) : Except RestoreError MutableUTXODiff := do
  let collected ← collectUTXODiffs utxoDiffs utxoDiffChildren (utxoDiffChildren.size + 1) blockHash
  (collected.reverse.foldlM withDiffInPlace .new).mapError .diff

theorem collectUTXODiffs_congr {utxoDiffs utxoDiffs' : GoMap DomainHash MutableUTXODiff}
    (h : GoMap.Same utxoDiffs utxoDiffs') (utxoDiffChildren : GoMap DomainHash DomainHash) (n : ℕ)
    (blockHash : DomainHash) : collectUTXODiffs utxoDiffs utxoDiffChildren n blockHash =
      collectUTXODiffs utxoDiffs' utxoDiffChildren n blockHash := by
  induction n generalizing blockHash with
  | zero => rfl
  | succ n ih =>
    unfold collectUTXODiffs
    rw [h blockHash]
    simp only [ih]

end Kaspad.ConsensusState
