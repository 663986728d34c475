import Kaspad.Lib.Prog
import Kaspad.Transaction

/-! # IBD with a headers proof

`ibdWithHeadersProof` of `app/protocol/flows/v5/blockrelay` and what it calls. The peer is the list of what
arrives on the incoming route; after its end every receive times out. The domain and the outgoing route are
given by their operations. Headers that are received ahead of their processing by a goroutine are received
one message at a time here. `H`, `B`, `W` and `G` are the types of headers, blocks, headers of a DAA window and
pairs of a block with its GHOSTDAG data.
-/

namespace Kaspad.IBD
open Lib Prog

/-! ## Messages and errors -/

inductive Message (H B W G : Type)
  | pruningPointProof (headers : List (List H))
  | pruningPoints (headers : List H)
  | trustedData (daaWindow : List W) (ghostdagData : List G)
  | blockWithTrustedDataV4 (block : B) (daaWindowIndices ghostdagDataIndices : List ℕ)
  | doneBlocksWithTrustedData
  | blockHeaders (headers : List H)
  | doneHeaders
  | pruningPointUTXOSetChunk (pairs : List (DomainOutpoint × UTXOEntry))
  | donePruningPointUTXOSetChunks
  | unexpectedPruningPoint
  | other

inductive Request
  | requestPruningPointProof
  | requestPruningPointAndItsAnticone
  | requestNextPruningPointAndItsAnticoneBlocks
  | requestHeaders (lowHash highHash : DomainHash)
  | requestNextHeaders
  | requestAnticone (blockHash contextHash : DomainHash)
  | requestPruningPointUTXOSet (pruningPointHash : DomainHash)
  | requestNextPruningPointUTXOSetChunk

inductive DomainError
  | errDuplicateBlock
  | errSuggestedPruningViolatesFinality
  | otherRuleError
  | notRuleError
  deriving DecidableEq

def DomainError.isRuleError : DomainError → Bool
  | .notRuleError => false
  | _ => true

inductive Reason
  /-- `timeout expired` -/
  | timeout
  /-- `route capacity has been reached` -/
  | routeCapacityReached
  /-- `received unexpected message type. expected: …, got: …` -/
  | unexpectedMessageType
  /-- `pruning point proof validation failed` -/
  | proofValidationFailed
  /-- `the proposed pruning point is the same as the current pruning point` -/
  | samePruningPoint
  /-- `pruning points are violating finality` -/
  | pruningPointsViolateFinality
  /-- `the proof pruning point is not equal to the last pruning point in the list` -/
  | notLastPruningPoint
  /-- `got `done` message before receiving the pruning point` -/
  | doneBeforePruningPoint
  /-- `first block with trusted data is not the pruning point` -/
  | firstBlockNotPruningPoint
  /-- `failed validating block with trusted data` -/
  | trustedBlockFailed
  /-- `the genesis pruning point violates finality` -/
  | genesisPruningPoint
  /-- `Received an empty headers message from peer …` -/
  | emptyHeaders
  /-- `got invalid block header … during IBD` -/
  | invalidHeader
  /-- `Expected one anticone header chunk for … but got zero` -/
  | noAnticoneHeaders
  /-- `Expected only one anticone header chunk for …` -/
  | moreAnticoneHeaders
  /-- `did not receive relayBlockHash block … from peer … during block download` -/
  | relayBlockNotReceived
  /-- `the triggering IBD block was not sent` -/
  | triggeringBlockNotSent
  /-- `the timestamp of the candidate selected tip is smaller than the current selected tip` -/
  | smallerTimestamp
  /-- `difference between the timestamps of … is too small. Aborting IBD...` -/
  | timestampDifferenceTooSmall
  /-- `invalid pruning point …` -/
  | invalidPruningPoint
  /-- `error with pruning point UTXO set` -/
  | pruningPointUTXOSet
  deriving DecidableEq

inductive FlowError
  | errRouteClosed
  | protocolError (shouldBan : Bool) (reason : Reason)
  | domainError (err : DomainError)
  /-- An index out of range, or imported data that cannot be cleared. -/
  | panic
  deriving DecidableEq

def isRecoverableError : FlowError → Bool
  | .errRouteClosed => true
  | .protocolError _ _ => true
  | _ => false

def convertToBanningProtocolErrorIfRuleError (reason : Reason) (err : DomainError) : FlowError :=
  if err.isRuleError then .protocolError true reason else .domainError err

/-! ## The domain -/

section
variable (D H B W G : Type)

structure Consensus where
  validatePruningPointProof : List (List H) → Prog D DomainError Unit
  applyPruningPointProof : List (List H) → Prog D DomainError Unit
  pruningPoint : Prog D DomainError DomainHash
  arePruningPointsViolatingFinality : List H → Prog D DomainError Bool
  importPruningPoints : List H → Prog D DomainError Unit
  /-- `validateAndInsertBlockWithTrustedData` from `ghostdagDataWithoutPrunedBlocks` on -/
  insertBlockWithTrustedData : B → List W → List G → Prog D DomainError Unit
  /-- `GetBlockInfo(blockHash).Exists` -/
  blockExists : DomainHash → Prog D DomainError Bool
  /-- `ValidateAndInsertBlock` of a block without transactions -/
  validateAndInsertHeader : H → Prog D DomainError Unit
  getHeadersSelectedTip : Prog D DomainError DomainHash
  getBlockHeader : DomainHash → Prog D DomainError H
  isValidPruningPoint : DomainHash → Prog D DomainError Bool
  appendImportedPruningPointUTXOs : List (DomainOutpoint × UTXOEntry) → Prog D DomainError Unit
  clearImportedPruningPointData : Prog D DomainError Unit
  validateAndInsertImportedPruningPoint : DomainHash → Prog D DomainError Unit

structure Context where
  consensus : Consensus D H B W G
  stagingConsensus : Consensus D H B W G
  initStagingConsensusWithoutGenesis : Prog D DomainError Unit
  commitStagingConsensus : Prog D DomainError Unit
  deleteStagingConsensus : Prog D DomainError Unit
  onPruningPointUTXOSetOverride : Prog D DomainError Unit
  /-- `outgoingRoute.Enqueue`, which fails on a closed or full route -/
  enqueue : Request → Prog D FlowError Unit
  genesisHash : DomainHash
  headerHash : H → DomainHash
  timeInMilliseconds : H → ℤ
  blockHash : B → DomainHash

inductive Call
  /-- `ValidateAndInsertImportedPruningPoint` of the staging consensus returned without error. -/
  | importedPruningPointInserted
  /-- `CommitStagingConsensus` is called. -/
  | commitStagingConsensus
  deriving DecidableEq

structure Flow where
  incoming : List (Except FlowError (Message H B W G))
  domain : D
  calls : List Call

end

variable {D H B W G : Type}

abbrev Run (D H B W G α : Type) :=
  Prog (Flow D H B W G) FlowError α

def dequeueWithTimeout : Run D H B W G (Message H B W G) := do
  let flow ← get
  match flow.incoming with
  | [] => throw (.protocolError false .timeout)
  | received :: incoming =>
    set { flow with incoming := incoming }
    ofExcept received

def call {α : Type} (convert : DomainError → FlowError) (m : Prog D DomainError α) : Run D H B W G α :=
  zoomError Flow.domain (fun d flow => { flow with domain := d }) convert m

def send (context : Context D H B W G) (request : Request) : Run D H B W G Unit :=
  zoom Flow.domain (fun d flow => { flow with domain := d }) (context.enqueue request)

def outcome {α : Type} (m : Run D H B W G α) : Run D H B W G (Except FlowError α) :=
  ExceptT.mk fun flow => (.ok (exec m flow).1, (exec m flow).2)

def sendIf (context : Context D H B W G) (c : Bool) (request : Request) : Run D H B W G PUnit :=
  if c then send context request else pure ()

def record (made : Call) : Run D H B W G PUnit :=
  modify fun flow => { flow with calls := flow.calls ++ [made] }

def ibdBatchSize : ℕ := 99

variable (context : Context D H B W G)

/-! ## The proof and the pruning points -/

def syncAndValidatePruningPointProof : Run D H B W G DomainHash := do
  send context .requestPruningPointProof
  match ← dequeueWithTimeout with
  | .pruningPointProof headers =>
    call (convertToBanningProtocolErrorIfRuleError .proofValidationFailed)
      (context.consensus.validatePruningPointProof headers)
    call .domainError (context.stagingConsensus.applyPruningPointProof headers)
    match headers.head?.bind (·.getLast?) with
    | some header => pure (context.headerHash header)
    | none => throw .panic
  | _ => throw (.protocolError true .unexpectedMessageType)

def receivePruningPoints : Run D H B W G (List H) := do
  match ← dequeueWithTimeout with
  | .pruningPoints headers => pure headers
  | _ => throw (.protocolError true .unexpectedMessageType)

def validateAndInsertPruningPoints (proofPruningPoint : DomainHash) : Run D H B W G Unit := do
  let currentPruningPoint ← call .domainError context.consensus.pruningPoint
  returnIf (currentPruningPoint = proofPruningPoint) (.protocolError true .samePruningPoint)
  let headers ← receivePruningPoints
  let violating ← call .domainError (context.consensus.arePruningPointsViolatingFinality headers)
  returnIf violating (.protocolError false .pruningPointsViolateFinality)
  match headers.getLast? with
  | none => throw .panic
  | some header =>
    returnIf (context.headerHash header ≠ proofPruningPoint) (.protocolError true .notLastPruningPoint)
    call .domainError (context.stagingConsensus.importPruningPoints headers)

def receiveBlockWithTrustedData : Run D H B W G (Option (B × List ℕ × List ℕ)) := do
  match ← dequeueWithTimeout with
  | .blockWithTrustedDataV4 block daaWindowIndices ghostdagDataIndices =>
    pure (some (block, daaWindowIndices, ghostdagDataIndices))
  | .doneBlocksWithTrustedData => pure none
  | _ => throw (.protocolError true .unexpectedMessageType)

def elementsAt {α : Type} (l : List α) (indices : List ℕ) : Run D H B W G (List α) :=
  match indices.mapM (l[·]?) with
  | some elements => pure elements
  | none => throw .panic

/-- `block.GHOSTDAGData[0]` is read before anything of the block is validated. -/
def validateAndInsertBlockWithTrustedData (block : B) (daaWindow : List W) (ghostdagData : List G) :
    Run D H B W G Unit :=
  match ghostdagData with
  | [] => throw .panic
  | _ :: _ => call (convertToBanningProtocolErrorIfRuleError .trustedBlockFailed)
      (context.stagingConsensus.insertBlockWithTrustedData block daaWindow ghostdagData)

def processBlockWithTrustedData (block : B × List ℕ × List ℕ) (daaWindow : List W)
    (ghostdagData : List G) : Run D H B W G Unit := do
  let blockDAAWindow ← elementsAt daaWindow block.2.1
  let blockGHOSTDAGData ← elementsAt ghostdagData block.2.2
  validateAndInsertBlockWithTrustedData context block.1 blockDAAWindow blockGHOSTDAGData

def receiveAnticone (daaWindow : List W) (ghostdagData : List G) :
    ℕ → ℕ → Run D H B W G Unit
  | 0, _ => throw (.protocolError false .timeout)
  | messages + 1, i => do
    match ← receiveBlockWithTrustedData with
    | none => pure ()
    | some block =>
      processBlockWithTrustedData context block daaWindow ghostdagData
      sendIf context ((i + 2) % ibdBatchSize = 0) .requestNextPruningPointAndItsAnticoneBlocks
      receiveAnticone daaWindow ghostdagData messages (i + 1)

def syncPruningPointsAndPruningPointAnticone (proofPruningPoint : DomainHash) : Run D H B W G Unit := do
  send context .requestPruningPointAndItsAnticone
  validateAndInsertPruningPoints context proofPruningPoint
  match ← dequeueWithTimeout with
  | .trustedData daaWindow ghostdagData =>
    match ← receiveBlockWithTrustedData with
    | none => throw (.protocolError true .doneBeforePruningPoint)
    | some block =>
      returnIf (context.blockHash block.1 ≠ proofPruningPoint) (.protocolError true .firstBlockNotPruningPoint)
      processBlockWithTrustedData context block daaWindow ghostdagData
      receiveAnticone context daaWindow ghostdagData (← get).incoming.length 0
  | _ => throw (.protocolError true .unexpectedMessageType)

/-! ## The headers -/

def receiveHeaders : Run D H B W G (Option (List H)) := do
  match ← dequeueWithTimeout with
  | .blockHeaders headers => pure (some headers)
  | .doneHeaders => pure none
  | _ => throw (.protocolError true .unexpectedMessageType)

def processHeader (header : H) : Run D H B W G PUnit := do
  let blockExists ← call .domainError (context.stagingConsensus.blockExists (context.headerHash header))
  if blockExists then pure ()
  else
    match ← outcome (call .domainError (context.stagingConsensus.validateAndInsertHeader header)) with
    | .ok _ => pure ()
    | .error (.domainError .errDuplicateBlock) => pure ()
    | .error (.domainError err) => throw (convertToBanningProtocolErrorIfRuleError .invalidHeader err)
    | .error err => throw err

/-- The part of `syncMissingRelayPast` for a relay block that is not known. -/
def syncAnticone (syncerHeaderSelectedTipHash relayBlockHash : DomainHash) : Run D H B W G PUnit := do
  send context (.requestAnticone syncerHeaderSelectedTipHash relayBlockHash)
  match ← receiveHeaders with
  | none => throw (.protocolError true .noAnticoneHeaders)
  | some headers =>
    let next ← receiveHeaders
    returnIf next.isSome (.protocolError true .moreAnticoneHeaders)
    headers.forM (processHeader context)

def syncMissingRelayPast (syncerHeaderSelectedTipHash relayBlockHash : DomainHash) : Run D H B W G Unit := do
  let relayBlockExists ← call .domainError (context.stagingConsensus.blockExists relayBlockHash)
  if relayBlockExists then pure () else syncAnticone context syncerHeaderSelectedTipHash relayBlockHash
  let relayBlockExists ← call .domainError (context.stagingConsensus.blockExists relayBlockHash)
  returnIf (!relayBlockExists) (.protocolError true .relayBlockNotReceived)

/-- The loop of `syncPruningPointFutureHeaders`, for at most the given number of messages. -/
def receiveFutureHeaders (syncerHeaderSelectedTipHash relayBlockHash : DomainHash) :
    ℕ → Run D H B W G Unit
  | 0 => throw (.protocolError false .timeout)
  | messages + 1 => do
    match ← receiveHeaders with
    | none => syncMissingRelayPast context syncerHeaderSelectedTipHash relayBlockHash
    | some headers =>
      returnIf headers.isEmpty (.protocolError true .emptyHeaders)
      send context .requestNextHeaders
      headers.forM (processHeader context)
      receiveFutureHeaders syncerHeaderSelectedTipHash relayBlockHash messages

def syncPruningPointFutureHeaders (syncerHeaderSelectedTipHash highestKnownSyncerChainHash relayBlockHash : DomainHash) :
    Run D H B W G Unit := do
  if highestKnownSyncerChainHash = syncerHeaderSelectedTipHash then
    syncMissingRelayPast context syncerHeaderSelectedTipHash relayBlockHash
  else
    send context (.requestHeaders highestKnownSyncerChainHash syncerHeaderSelectedTipHash)
    let _ ← call .domainError (context.stagingConsensus.getBlockHeader highestKnownSyncerChainHash)
    receiveFutureHeaders context syncerHeaderSelectedTipHash relayBlockHash (← get).incoming.length

def selectedTipTimestamp (consensus : Consensus D H B W G) : Run D H B W G ℤ := do
  let headersSelectedTip ← call .domainError consensus.getHeadersSelectedTip
  pure (context.timeInMilliseconds (← call .domainError (consensus.getBlockHeader headersSelectedTip)))

def validatePruningPointFutureHeaderTimestamps : Run D H B W G Unit := do
  let headerSelectedTipTimestamp ← selectedTipTimestamp context context.stagingConsensus
  let currentSelectedTipTimestamp ← selectedTipTimestamp context context.consensus
  returnIf (headerSelectedTipTimestamp < currentSelectedTipTimestamp) (.protocolError false .smallerTimestamp)
  returnIf (headerSelectedTipTimestamp - currentSelectedTipTimestamp < 10 * 60 * 1000)
    (.protocolError false .timestampDifferenceTooSmall)

/-! ## The UTXO set of the pruning point -/

/-- The loop of `receiveAndInsertPruningPointUTXOSet`, for at most the given number of messages. -/
def receiveChunks : ℕ → ℕ → Run D H B W G Bool
  | 0, _ => throw (.protocolError false .timeout)
  | messages + 1, receivedChunkCount => do
    match ← dequeueWithTimeout with
    | .pruningPointUTXOSetChunk pairs =>
      call .domainError (context.stagingConsensus.appendImportedPruningPointUTXOs pairs)
      sendIf context ((receivedChunkCount + 1) % ibdBatchSize = 0) .requestNextPruningPointUTXOSetChunk
      receiveChunks messages (receivedChunkCount + 1)
    | .donePruningPointUTXOSetChunks => pure true
    | .unexpectedPruningPoint => pure false
    | _ => throw (.protocolError true .unexpectedMessageType)

def receiveAndInsertPruningPointUTXOSet : Run D H B W G Bool := do
  receiveChunks context (← get).incoming.length 0

def insertImportedPruningPoint (pruningPointHash : DomainHash) (receivedAll : Bool) : Run D H B W G Bool := do
  if !receivedAll then pure false
  else
    match ← outcome (call .domainError
        (context.stagingConsensus.validateAndInsertImportedPruningPoint pruningPointHash)) with
    | .ok _ => do
      record .importedPruningPointInserted
      pure true
    | .error (.domainError .errSuggestedPruningViolatesFinality) => pure false
    | .error (.domainError err) => throw (convertToBanningProtocolErrorIfRuleError .pruningPointUTXOSet err)
    | .error err => throw err

/-- `fetchMissingUTXOSet`; its deferred call clears the imported data however it ends. -/
def fetchMissingUTXOSet (pruningPointHash : DomainHash) : Run D H B W G Bool := do
  let result ← outcome (do
    send context (.requestPruningPointUTXOSet pruningPointHash)
    let receivedAll ← receiveAndInsertPruningPointUTXOSet context
    insertImportedPruningPoint context pruningPointHash receivedAll)
  call (fun _ => .panic) context.stagingConsensus.clearImportedPruningPointData
  ofExcept result

def syncPruningPointUTXOSet (pruningPoint : DomainHash) : Run D H B W G Bool := do
  let isValid ← call .domainError (context.stagingConsensus.isValidPruningPoint pruningPoint)
  returnIf (!isValid) (.protocolError true .invalidPruningPoint)
  fetchMissingUTXOSet context pruningPoint

def downloadHeaders (syncerHeaderSelectedTipHash relayBlockHash : DomainHash) : Run D H B W G DomainHash := do
  let proofPruningPoint ← syncAndValidatePruningPointProof context
  syncPruningPointsAndPruningPointAnticone context proofPruningPoint
  returnIf (proofPruningPoint = context.genesisHash) (.protocolError true .genesisPruningPoint)
  syncPruningPointFutureHeaders context syncerHeaderSelectedTipHash proofPruningPoint relayBlockHash
  let relayBlockExists ← call .domainError (context.stagingConsensus.blockExists relayBlockHash)
  returnIf (!relayBlockExists) (.protocolError true .triggeringBlockNotSent)
  validatePruningPointFutureHeaderTimestamps context
  pure proofPruningPoint

def downloadHeadersAndPruningUTXOSet (syncerHeaderSelectedTipHash relayBlockHash : DomainHash) :
    Run D H B W G Unit := do
  let proofPruningPoint ← downloadHeaders context syncerHeaderSelectedTipHash relayBlockHash
  -- The result is only logged: both branches of the source end with `return nil`.
  let _syncedPruningPointUTXOSetSuccessfully ← syncPruningPointUTXOSet context proofPruningPoint
  pure ()

def ibdWithHeadersProof (syncerHeaderSelectedTipHash relayBlockHash : DomainHash) : Run D H B W G Unit := do
  call .domainError context.initStagingConsensusWithoutGenesis
  match ← outcome (downloadHeadersAndPruningUTXOSet context syncerHeaderSelectedTipHash relayBlockHash) with
  | .error err =>
    if isRecoverableError err then call .domainError context.deleteStagingConsensus else pure ()
    throw err
  | .ok _ =>
    record .commitStagingConsensus
    call .domainError context.commitStagingConsensus
    call .domainError context.onPruningPointUTXOSetOverride

end Kaspad.IBD
