import Kaspad.Coinbase.Payload

/-! # Validation of a block body in isolation

`block_body_in_isolation.go` of `domain/consensus/processes/blockvalidator`. A transaction has no UTXO
entries here before it is populated, so every block passes `checkNoPrefilledInputs`.
-/

namespace Kaspad
open Lib List

structure BlockValidator where
  transactionValidator : TransactionValidator
  maxBlockMass : ℕ
  calculateHashMerkleRoot : List DomainTransaction → DomainHash
  transactionMass : DomainTransaction → ℕ

namespace BlockValidator
variable (v : BlockValidator)

def checkBlockHashMerkleRoot (block : DomainBlock) : Except RuleError Unit :=
  let calculatedHashMerkleRoot := v.calculateHashMerkleRoot block.transactions
  if block.header.hashMerkleRoot ≠ calculatedHashMerkleRoot then
    .error (.rule .badMerkleRoot
      s!"block hash merkle root is invalid - block header indicates {block.header.hashMerkleRoot}, but calculated value is {calculatedHashMerkleRoot}")
  else .ok ()

/-- Where a coinbase transaction stands. The first check rules out the index error of the second. -/
def checkCoinbasePositions (block : DomainBlock) : Except RuleError DomainTransaction :=
  match block.transactions with
  | [] => .error (.rule .noTransactions "block does not contain any transactions")
  | first :: rest =>
    if !isCoinBase first then
      .error (.rule .firstTxNotCoinbase "first transaction in block is not a coinbase")
    else
      match rest.findIdx? isCoinBase with
      | some i => .error (.rule .multipleCoinbases s!"block contains second coinbase at index {i + 1}")
      | none => .ok first

def checkCoinbaseBlueScore (block : DomainBlock) (coinbase : DomainTransaction) : Except CoinbaseError Unit := do
  let (coinbaseBlueScore, _, _) ← extractCoinbaseDataBlueScoreAndSubsidy
    v.transactionValidator.coinbasePayloadScriptPublicKeyMaxLength coinbase.payload
  if coinbaseBlueScore ≠ block.header.blueScore then
    throw (.rule (.rule .unexpectedCoinbaseBlueScore
      s!"block blue score of {coinbaseBlueScore} is not the expected value of {block.header.blueScore}"))

def subnetworkLess (a b : DomainSubnetworkID) : Bool :=
  decide (LittleEndian.encode 20 a < LittleEndian.encode 20 b)

/-- The loop of `checkBlockTransactionOrder`, from the second transaction after the coinbase on. -/
def checkTransactionOrder : List DomainTransaction → Except RuleError Unit
  | before :: tx :: rest =>
    if subnetworkLess tx.subnetworkID before.subnetworkID then
      .error (.rule .transactionsNotSorted "transactions must be sorted by subnetwork")
    else checkTransactionOrder (tx :: rest)
  | _ => .ok ()

def checkBlockTransactionOrder (block : DomainBlock) : Except RuleError Unit :=
  checkTransactionOrder block.transactions.tail

def wrap (text : String) : RuleError → RuleError
  | .rule code message => .rule code s!"{text}: {message}"
  | .missingTxOut missingOutpoints => .missingTxOut missingOutpoints

def checkTransactionsInIsolation : List DomainTransaction → Except RuleError Unit
  | [] => .ok ()
  | tx :: rest => do
    (v.transactionValidator.validateTransactionInIsolation tx).mapError
      (wrap s!"transaction {tx.id} failed isolation check")
    checkTransactionsInIsolation rest

def checkMass : ℕ → List DomainTransaction → Except RuleError Unit
  | _, [] => .ok ()
  | massBefore, tx :: rest =>
    let mass := (massBefore + v.transactionMass tx) % 2 ^ 64
    if mass > v.maxBlockMass ∨ mass < massBefore then
      .error (.rule .blockMassTooHigh s!"block exceeded the mass limit of {v.maxBlockMass}")
    else checkMass mass rest

def checkDuplicateTransactions : List DomainTransactionID → List DomainTransaction → Except RuleError Unit
  | _, [] => .ok ()
  | existingTxIDs, tx :: rest =>
    if tx.id ∈ existingTxIDs then
      .error (.rule .duplicateTx s!"block contains duplicate transaction {tx.id}")
    else checkDuplicateTransactions (tx.id :: existingTxIDs) rest

abbrev Spend := DomainOutpoint × ℕ × DomainTransactionID

def spends (transactions : List DomainTransaction) : List Spend :=
  transactions.flatMap fun tx => tx.outpoints.zipIdx.map fun (o, i) => (o, i, tx.id)

def checkDoubleSpends : List Spend → List Spend → Except RuleError Unit
  | _, [] => .ok ()
  | usedOutpoints, (o, i, txID) :: rest =>
    match usedOutpoints.find? (·.1 = o) with
    | some (_, _, spendingTxID) =>
      .error (.rule .doubleSpendInSameBlock
        s!"transaction {txID} spends outpoint ({o.transactionID}: {o.index}) that was already spent by transaction {spendingTxID} in this block")
    | none => checkDoubleSpends ((o, i, txID) :: usedOutpoints) rest

def checkBlockHasNoChainedTransactions (block : DomainBlock) : Except RuleError Unit :=
  let transactionsSet := block.transactions.map (·.id)
  match (spends block.transactions).find? (·.1.transactionID ∈ transactionsSet) with
  | some (o, i, txID) =>
    .error (.rule .chainedTransactions
      s!"block contains chained transactions: Input {i} of transaction {txID} spend an output of transaction {o.transactionID}")
  | none => .ok ()

def validateBodyInIsolation (block : DomainBlock) : Except CoinbaseError Unit := do
  (v.checkBlockHashMerkleRoot block).mapError .rule
  let coinbase ← (checkCoinbasePositions block).mapError .rule
  v.checkCoinbaseBlueScore block coinbase
  (checkBlockTransactionOrder block).mapError .rule
  (v.checkTransactionsInIsolation block.transactions).mapError .rule
  (v.checkMass 0 block.transactions).mapError .rule
  (checkDuplicateTransactions [] block.transactions).mapError .rule
  (checkDoubleSpends [] (spends block.transactions)).mapError .rule
  (checkBlockHasNoChainedTransactions block).mapError .rule

/-! ## What passes -/

theorem checkTransactionsInIsolation_ok {transactions : List DomainTransaction}
    (h : v.checkTransactionsInIsolation transactions = .ok ()) :
    ∀ tx ∈ transactions, TransactionValidator.PassedIsolation tx := by
  induction transactions with
  | nil => simp
  | cons tx rest ih =>
    obtain ⟨⟨⟩, htx, hrest⟩ := bind_eq_ok.mp h
    exact forall_mem_cons.mpr ⟨v.transactionValidator.passedIsolation (mapError_eq_ok.mp htx), ih hrest⟩

/-- One coinbase transaction, at the front. -/
structure ValidBody (transactions : List DomainTransaction) : Prop where
  positions : ∃ coinbase rest, transactions = coinbase :: rest ∧ isCoinBase coinbase = true ∧
    ∀ tx ∈ rest, isCoinBase tx = false
  isolation : ∀ tx ∈ transactions, TransactionValidator.PassedIsolation tx

theorem validBody {block : DomainBlock} (h : v.validateBodyInIsolation block = .ok ()) :
    ValidBody block.transactions := by
  obtain ⟨⟨⟩, -, h⟩ := bind_eq_ok.mp h
  obtain ⟨coinbase, hpositions, h⟩ := bind_eq_ok.mp h
  obtain ⟨⟨⟩, -, h⟩ := bind_eq_ok.mp h
  obtain ⟨⟨⟩, -, h⟩ := bind_eq_ok.mp h
  obtain ⟨⟨⟩, hisolation, -⟩ := bind_eq_ok.mp h
  refine ⟨?_, v.checkTransactionsInIsolation_ok (mapError_eq_ok.mp hisolation)⟩
  have hpositions := mapError_eq_ok.mp hpositions
  unfold checkCoinbasePositions at hpositions
  cases htxs : block.transactions with
  | nil => simp [htxs] at hpositions
  | cons first rest =>
    rw [htxs] at hpositions
    cases hfirst : isCoinBase first with
    | false => simp [hfirst] at hpositions
    | true =>
      cases hfind : rest.findIdx? isCoinBase with
      | some i => simp [hfirst, hfind] at hpositions
      | none => exact ⟨first, rest, rfl, hfirst, fun tx htx => List.findIdx?_eq_none_iff.mp hfind tx htx⟩

theorem checkDuplicateTransactions_ok {existing : List DomainTransactionID} {transactions : List DomainTransaction}
    (h : checkDuplicateTransactions existing transactions = .ok ()) :
    (transactions.map (·.id)).Nodup ∧ ∀ tx ∈ transactions, tx.id ∉ existing := by
  induction transactions generalizing existing with
  | nil => simp
  | cons tx rest ih =>
    unfold checkDuplicateTransactions at h
    split_ifs at h with hmem
    obtain ⟨hnodup, hnew⟩ := ih h
    refine ⟨nodup_cons.mpr ⟨fun hid => ?_, hnodup⟩, forall_mem_cons.mpr ⟨hmem, fun tx' htx' hid => ?_⟩⟩
    · obtain ⟨tx', htx', hid'⟩ := mem_map.mp hid
      exact hnew tx' htx' (by simp [hid'])
    · exact hnew tx' htx' (mem_cons_of_mem _ hid)

theorem checkDoubleSpends_ok {used rest : List Spend} (h : checkDoubleSpends used rest = .ok ()) :
    (rest.map Prod.fst).Nodup ∧ ∀ s ∈ rest, s.1 ∉ used.map Prod.fst := by
  induction rest generalizing used with
  | nil => simp
  | cons s rest ih =>
    obtain ⟨o, i, txID⟩ := s
    unfold checkDoubleSpends at h
    split at h
    · cases h
    next hfind =>
    obtain ⟨hnodup, hnew⟩ := ih h
    have hunused : o ∉ used.map Prod.fst := by
      intro ho
      obtain ⟨s, hs, rfl⟩ := mem_map.mp ho
      simpa using List.find?_eq_none.mp hfind s hs
    refine ⟨nodup_cons.mpr ⟨fun ho => ?_, hnodup⟩, forall_mem_cons.mpr ⟨hunused, fun s hs hmem => ?_⟩⟩
    · obtain ⟨s, hs, heq⟩ := mem_map.mp ho
      exact hnew s hs (by simp [heq])
    · exact hnew s hs (mem_cons_of_mem _ hmem)

structure DistinctBody (transactions : List DomainTransaction) : Prop where
  ids : (transactions.map (·.id)).Nodup
  spends : (transactions.flatMap (·.outpoints)).Nodup
  unchained : ∀ tx ∈ transactions, ∀ o ∈ tx.outpoints, ∀ tx' ∈ transactions, tx'.id ≠ o.transactionID

theorem map_fst_spends (transactions : List DomainTransaction) :
    (spends transactions).map Prod.fst = transactions.flatMap (·.outpoints) := by
  rw [spends, map_flatMap]
  congr
  funext tx
  rw [map_map]
  exact zipIdx_map_fst 0 tx.outpoints

theorem distinctBody {block : DomainBlock} (h : v.validateBodyInIsolation block = .ok ()) :
    DistinctBody block.transactions := by
  obtain ⟨⟨⟩, -, h⟩ := bind_eq_ok.mp h
  obtain ⟨coinbase, -, h⟩ := bind_eq_ok.mp h
  obtain ⟨⟨⟩, -, h⟩ := bind_eq_ok.mp h
  obtain ⟨⟨⟩, -, h⟩ := bind_eq_ok.mp h
  obtain ⟨⟨⟩, -, h⟩ := bind_eq_ok.mp h
  obtain ⟨⟨⟩, -, h⟩ := bind_eq_ok.mp h
  obtain ⟨⟨⟩, hduplicate, h⟩ := bind_eq_ok.mp h
  obtain ⟨⟨⟩, hdouble, h⟩ := bind_eq_ok.mp h
  refine ⟨(checkDuplicateTransactions_ok (mapError_eq_ok.mp hduplicate)).1, ?_, fun tx htx o ho tx' htx' hid => ?_⟩
  · rw [← map_fst_spends]
    exact (checkDoubleSpends_ok (mapError_eq_ok.mp hdouble)).1
  have hchained := mapError_eq_ok.mp h
  unfold checkBlockHasNoChainedTransactions at hchained
  simp only at hchained
  split at hchained
  · cases hchained
  next hfind =>
  have hspent : o ∈ (spends block.transactions).map Prod.fst := by
    rw [map_fst_spends]
    exact mem_flatMap.mpr ⟨tx, htx, ho⟩
  obtain ⟨s, hs, rfl⟩ := mem_map.mp hspent
  have hnone := List.find?_eq_none.mp hfind s hs
  exact hnone (decide_eq_true (mem_map.mpr ⟨tx', htx', hid⟩))

end BlockValidator
end Kaspad
