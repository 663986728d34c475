import Kaspad.IBD.HeadersProof
import Kaspad.Lib.Channels

/-! # The exchange of the pruning point UTXO set

`HandleRequestPruningPointUTXOSet` on one side and `fetchMissingUTXOSet` with
`receiveAndInsertPruningPointUTXOSet` on the other, of `app/protocol/flows/v5/blockrelay`. Routes are
queues that lose nothing, and no receive times out. The sender decides whether it is finished before it
counts the chunk it has just sent, so that it does not wait after a last chunk that fills a batch, while
the receiver asks for more after every full batch.
-/

namespace Kaspad.IBD.UTXOSetExchange
open Lib.Channels List

abbrev OutpointAndUTXOEntryPair := DomainOutpoint × UTXOEntry

/-! ## The pruning point UTXO set -/

/-- The set in the order of the cursor, with each outpoint once. -/
structure PruningPointUTXOSet where
  pruningPoint : DomainHash
  pairs : List OutpointAndUTXOEntryPair
  nodup : (pairs.map Prod.fst).Nodup

inductive GetError
  | errWrongPruningPointHash
  /-- `Seek` to a key that is not in the bucket. -/
  | notFound

/-- What a cursor goes through after `Seek`: all pairs after the one it stands on. -/
def PruningPointUTXOSet.cursor (set : PruningPointUTXOSet) :
    Option DomainOutpoint → Except GetError (List OutpointAndUTXOEntryPair)
  | none => .ok set.pairs
  | some fromOutpoint =>
    match set.pairs.dropWhile (fun pair => pair.1 ≠ fromOutpoint) with
    | [] => .error .notFound
    | _ :: rest => .ok rest

def PruningPointUTXOSet.getPruningPointUTXOs (set : PruningPointUTXOSet) (expectedPruningPointHash : DomainHash)
    (fromOutpoint : Option DomainOutpoint) (limit : ℕ) : Except GetError (List OutpointAndUTXOEntryPair) :=
  if expectedPruningPointHash ≠ set.pruningPoint then .error .errWrongPruningPointHash
  else (set.cursor fromOutpoint).map (List.take limit)

/-! ## The two sides -/

inductive ToSender
  | requestPruningPointUTXOSet (pruningPointHash : DomainHash)
  | requestNextPruningPointUTXOSetChunk

inductive ToReceiver
  | pruningPointUTXOSetChunk (pairs : List OutpointAndUTXOEntryPair)
  | donePruningPointUTXOSetChunks
  | unexpectedPruningPoint

inductive Sender
  /-- In `waitForRequestPruningPointUTXOSetMessages`. -/
  | waiting
  /-- At the head of the loop of `sendPruningPointUTXOSet`. -/
  | serving (pruningPointHash : DomainHash) (fromOutpoint : Option DomainOutpoint) (chunksSent : ℕ)
  /-- Before the request for the next chunks. -/
  | awaitingNext (pruningPointHash : DomainHash) (fromOutpoint : Option DomainOutpoint) (chunksSent : ℕ)
      (finished : Bool)
  /-- Before the message that all chunks are sent. -/
  | finishing
  /-- The flow has returned `received unexpected message type`. -/
  | unexpectedMessageType

def step : ℕ := 1000

def lastOutpoint (pairs : List OutpointAndUTXOEntryPair) : Option DomainOutpoint :=
  pairs.getLast?.map Prod.fst

/-- The loop of `sendPruningPointUTXOSet` after a chunk is in the outgoing route. -/
def afterChunk (pruningPointHash : DomainHash) (fromOutpoint : Option DomainOutpoint) (chunksSent : ℕ)
    (pruningPointUTXOs : List OutpointAndUTXOEntryPair) : Sender :=
  let finished := decide (pruningPointUTXOs.length < step)
  if finished && decide (chunksSent % ibdBatchSize ≠ 0) then .finishing
  else
    let fromOutpoint := (lastOutpoint pruningPointUTXOs).or fromOutpoint
    if (chunksSent + 1) % ibdBatchSize = 0 then
      .awaitingNext pruningPointHash fromOutpoint (chunksSent + 1) finished
    else .serving pruningPointHash fromOutpoint (chunksSent + 1)

/-- An error of the store other than a wrong pruning point is dropped, and the chunk is empty. -/
def sender (set : PruningPointUTXOSet) : Sender → Action Sender ToSender ToReceiver
  | .waiting => .receive fun
    | .requestPruningPointUTXOSet pruningPointHash => .serving pruningPointHash none 0
    | .requestNextPruningPointUTXOSetChunk => .unexpectedMessageType
  | .serving pruningPointHash fromOutpoint chunksSent =>
    match set.getPruningPointUTXOs pruningPointHash fromOutpoint step with
    | .error .errWrongPruningPointHash => .send .unexpectedPruningPoint .waiting
    | .error .notFound =>
      .send (.pruningPointUTXOSetChunk []) (afterChunk pruningPointHash fromOutpoint chunksSent [])
    | .ok pruningPointUTXOs =>
      .send (.pruningPointUTXOSetChunk pruningPointUTXOs)
        (afterChunk pruningPointHash fromOutpoint chunksSent pruningPointUTXOs)
  | .awaitingNext pruningPointHash fromOutpoint chunksSent finished => .receive fun
    | .requestNextPruningPointUTXOSetChunk =>
      if finished then .finishing else .serving pruningPointHash fromOutpoint chunksSent
    | .requestPruningPointUTXOSet _ => .unexpectedMessageType
  | .finishing => .send .donePruningPointUTXOSetChunks .waiting
  | .unexpectedMessageType => .stop

inductive Receiver
  | requesting (pruningPointHash : DomainHash)
  | receiving (imported : List OutpointAndUTXOEntryPair) (receivedChunkCount : ℕ)
  | requestingNext (imported : List OutpointAndUTXOEntryPair) (receivedChunkCount : ℕ)
  | returned (receivedAll : Bool) (imported : List OutpointAndUTXOEntryPair)

def afterReceived (imported : List OutpointAndUTXOEntryPair) (receivedChunkCount : ℕ) : Receiver :=
  if receivedChunkCount % ibdBatchSize = 0 then .requestingNext imported receivedChunkCount
  else .receiving imported receivedChunkCount

/-- The request of `fetchMissingUTXOSet`, then `receiveAndInsertPruningPointUTXOSet`. -/
def receiver : Receiver → Action Receiver ToReceiver ToSender
  | .requesting pruningPointHash => .send (.requestPruningPointUTXOSet pruningPointHash) (.receiving [] 0)
  | .receiving imported receivedChunkCount => .receive fun
    | .pruningPointUTXOSetChunk pairs => afterReceived (imported ++ pairs) (receivedChunkCount + 1)
    | .donePruningPointUTXOSetChunks => .returned true imported
    | .unexpectedPruningPoint => .returned false imported
  | .requestingNext imported receivedChunkCount =>
    .send .requestNextPruningPointUTXOSetChunk (.receiving imported receivedChunkCount)
  | .returned _ _ => .stop

abbrev State := Network Sender Receiver ToSender ToReceiver

abbrev Moves (set : PruningPointUTXOSet) : State → State → Prop := Network.Step (sender set) receiver

def start (set : PruningPointUTXOSet) : State := ⟨.waiting, .requesting set.pruningPoint, [], []⟩

/-- All pairs are received, then the done message; the sender waits for a request and its route is empty. -/
def completed (set : PruningPointUTXOSet) : State := ⟨.waiting, .returned true set.pairs, [], []⟩

def interrupted (set : PruningPointUTXOSet) : State :=
  ⟨.unexpectedMessageType, .returned true set.pairs, [], []⟩

/-! ## Chunks -/

section
variable {set : PruningPointUTXOSet}

theorem lastOutpoint_append (l pairs : List OutpointAndUTXOEntryPair) :
    lastOutpoint (l ++ pairs) = (lastOutpoint pairs).or (lastOutpoint l) := by
  simp only [lastOutpoint, List.getLast?_append]
  cases pairs.getLast? <;> rfl

theorem cursor_lastOutpoint (set : PruningPointUTXOSet) (n : ℕ) :
    set.cursor (lastOutpoint (set.pairs.take n)) = .ok (set.pairs.drop n) := by
  rcases eq_nil_or_concat' (set.pairs.take n) with hnil | ⟨l, pair, hl⟩
  · have hdrop : set.pairs.drop n = set.pairs := by
      simpa [hnil] using take_append_drop n set.pairs
    rw [hnil, hdrop]
    rfl
  have hpairs : set.pairs = l ++ pair :: set.pairs.drop n := by
    simpa [hl] using (take_append_drop n set.pairs).symm
  have hbefore : ∀ other ∈ l, other.1 ≠ pair.1 := by
    have hnodup := set.nodup
    rw [hpairs, map_append, map_cons] at hnodup
    intro other hother heq
    exact (disjoint_of_nodup_append hnodup) (mem_map_of_mem hother) (heq ▸ mem_cons_self)
  have hwhile : set.pairs.dropWhile (fun other => other.1 ≠ pair.1) = pair :: set.pairs.drop n := by
    nth_rewrite 1 [hpairs]
    rw [dropWhile_append_of_pos (fun other hother => by simpa using hbefore other hother)]
    simp
  rw [hl, lastOutpoint_append]
  simp only [lastOutpoint, List.getLast?_singleton, Option.map_some, Option.some_or,
    PruningPointUTXOSet.cursor, hwhile]

def chunk (set : PruningPointUTXOSet) (sent : ℕ) : List OutpointAndUTXOEntryPair :=
  (set.pairs.drop (sent * step)).take step

theorem take_append_chunk (sent : ℕ) :
    set.pairs.take (sent * step) ++ chunk set sent = set.pairs.take ((sent + 1) * step) := by
  rw [chunk, ← take_add, Nat.succ_mul]

theorem length_chunk_lt_iff (sent : ℕ) : (chunk set sent).length < step ↔ set.pairs.length / step ≤ sent := by
  rw [chunk, length_take, length_drop]
  unfold step
  omega

theorem take_eq_pairs {sent : ℕ} (h : set.pairs.length / step < sent) : set.pairs.take (sent * step) = set.pairs := by
  refine take_of_length_le ?_
  unfold step at h ⊢
  omega

end

/-! ## One chunk -/

section
variable (set : PruningPointUTXOSet)

def served (sent : ℕ) (stage : Sender) : State :=
  ⟨stage, .receiving (set.pairs.take (sent * step)) sent, [], []⟩

def serving (sent : ℕ) : Sender :=
  .serving set.pruningPoint (lastOutpoint (set.pairs.take (sent * step))) sent

def nextStage (sent : ℕ) : Sender :=
  afterChunk set.pruningPoint (lastOutpoint (set.pairs.take (sent * step))) sent (chunk set sent)

theorem sender_serving (sent : ℕ) :
    sender set (serving set sent) = .send (.pruningPointUTXOSetChunk (chunk set sent)) (nextStage set sent) := by
  simp [serving, sender, PruningPointUTXOSet.getPruningPointUTXOs, cursor_lastOutpoint, Except.map, nextStage, chunk]

variable {set} {sent : ℕ}

theorem nextStage_finishing (hlast : set.pairs.length / step ≤ sent)
    (hbatch : sent % ibdBatchSize ≠ 0) : nextStage set sent = .finishing := by
  simp [nextStage, afterChunk, length_chunk_lt_iff, hlast, hbatch]

theorem nextStage_serving (hgoes : sent < set.pairs.length / step ∨ sent % ibdBatchSize = 0)
    (hbatch : (sent + 1) % ibdBatchSize ≠ 0) : nextStage set sent = serving set (sent + 1) := by
  have hcond : ¬ (set.pairs.length / step ≤ sent ∧ sent % ibdBatchSize ≠ 0) := by omega
  have hlast := lastOutpoint_append (set.pairs.take (sent * step)) (chunk set sent)
  rw [take_append_chunk] at hlast
  simp only [nextStage, afterChunk, length_chunk_lt_iff, ← Bool.decide_and, hcond, decide_false,
    Bool.false_eq_true, if_false, if_neg hbatch, serving, hlast]

theorem nextStage_awaitingNext (hgoes : sent < set.pairs.length / step) (hbatch : (sent + 1) % ibdBatchSize = 0) :
    nextStage set sent = .awaitingNext set.pruningPoint (lastOutpoint (set.pairs.take ((sent + 1) * step)))
      (sent + 1) false := by
  have hfull : ¬ set.pairs.length / step ≤ sent := by omega
  have hlast := lastOutpoint_append (set.pairs.take (sent * step)) (chunk set sent)
  rw [take_append_chunk] at hlast
  simp [nextStage, afterChunk, length_chunk_lt_iff, hfull, hbatch, hlast]

theorem chunk_received (set : PruningPointUTXOSet) (sent : ℕ) :
    ∃ n, Steps (Moves set) n (served set sent (serving set sent))
      ⟨nextStage set sent, afterReceived (set.pairs.take ((sent + 1) * step)) (sent + 1), [], []⟩ := by
  refine ⟨2, .head (.leftSends (sender_serving set sent)) (.head (.rightReceives rfl ?_) (.refl _))⟩
  rw [← take_append_chunk]

theorem full_chunk (hgoes : sent < set.pairs.length / step) :
    ∃ n, Steps (Moves set) n (served set sent (serving set sent))
      (served set (sent + 1) (serving set (sent + 1))) := by
  obtain ⟨n, hn⟩ := chunk_received set sent
  by_cases hbatch : (sent + 1) % ibdBatchSize = 0
  · rw [nextStage_awaitingNext hgoes hbatch, afterReceived, if_pos hbatch] at hn
    exact hn.trans (.head (.rightSends rfl) (.head (.leftReceives rfl rfl) (.refl _)))
  rw [nextStage_serving (.inl hgoes) hbatch, afterReceived, if_neg hbatch] at hn
  exact ⟨n, hn⟩

theorem full_chunks (hle : sent ≤ set.pairs.length / step) :
    ∃ n, Steps (Moves set) n (start set) (served set sent (serving set sent)) := by
  induction sent with
  | zero =>
    refine ⟨2, .head (.rightSends rfl) (.head (.leftReceives rfl rfl) ?_)⟩
    exact .refl _
  | succ sent ih =>
    obtain ⟨n, hn⟩ := ih (Nat.le_of_succ_le hle)
    obtain ⟨m, hm⟩ := full_chunk hle
    exact hn.trans hm

end

/-! ## The last chunk -/

variable {set : PruningPointUTXOSet}

theorem completed_stuck : Stuck (Moves set) (completed set) := Network.stuck rfl rfl

theorem interrupted_stuck : Stuck (Moves set) (interrupted set) := Network.stuck rfl rfl

variable {sent : ℕ} (hlast : set.pairs.length / step ≤ sent)
include hlast

theorem finishing_chunk (hsent : sent % ibdBatchSize ≠ 0) (hbatch : (sent + 1) % ibdBatchSize ≠ 0) :
    ∃ n, Steps (Moves set) n (served set sent (serving set sent)) (completed set) := by
  obtain ⟨n, hn⟩ := chunk_received set sent
  rw [nextStage_finishing hlast hsent, afterReceived, if_neg hbatch, take_eq_pairs (by omega)] at hn
  exact hn.trans (.head (.leftSends rfl) (.head (.rightReceives rfl rfl) (.refl _)))

theorem finishing_chunk_of_batch (hbatch : (sent + 1) % ibdBatchSize = 0) :
    ∃ n, Steps (Moves set) n (served set sent (serving set sent)) (interrupted set) := by
  have hsent : sent % ibdBatchSize ≠ 0 := by
    unfold ibdBatchSize at hbatch ⊢
    omega
  obtain ⟨n, hn⟩ := chunk_received set sent
  rw [nextStage_finishing hlast hsent, afterReceived, if_pos hbatch, take_eq_pairs (by omega)] at hn
  exact hn.trans (.head (.rightSends rfl) (.head (.leftSends rfl) (.head (.rightReceives rfl rfl)
    (.head (.leftReceives rfl rfl) (.refl _)))))

theorem finishing_chunk_of_opening (hsent : sent % ibdBatchSize = 0) :
    ∃ n, Steps (Moves set) n (served set sent (serving set sent)) (completed set) := by
  have hbatches : (sent + 1) % ibdBatchSize ≠ 0 ∧ (sent + 1 + 1) % ibdBatchSize ≠ 0 := by
    unfold ibdBatchSize at hsent ⊢
    omega
  obtain ⟨n, hn⟩ := chunk_received set sent
  rw [nextStage_serving (.inr hsent) hbatches.1, afterReceived, if_neg hbatches.1] at hn
  obtain ⟨m, hm⟩ := finishing_chunk (Nat.le_succ_of_le hlast) hbatches.1 hbatches.2
  exact hn.trans hm

omit hlast

theorem completed_of_last (hlast : (set.pairs.length / step + 1) % ibdBatchSize ≠ 0) :
    EndsIn (Moves set) (start set) (completed set) := by
  obtain ⟨n, hn⟩ := full_chunks (le_refl (set.pairs.length / step))
  obtain ⟨m, hm⟩ : ∃ m, Steps (Moves set) m _ (completed set) := by
    by_cases hopens : set.pairs.length / step % ibdBatchSize = 0
    · exact finishing_chunk_of_opening le_rfl hopens
    · exact finishing_chunk le_rfl hopens hlast
  obtain ⟨k, hk⟩ := hn.trans hm
  exact Network.endsIn hk completed_stuck

theorem interrupted_of_last (hlast : (set.pairs.length / step + 1) % ibdBatchSize = 0) :
    ∃ n, Steps (Moves set) n (start set) (interrupted set) := by
  obtain ⟨n, hn⟩ := full_chunks (le_refl (set.pairs.length / step))
  obtain ⟨m, hm⟩ := finishing_chunk_of_batch (le_refl (set.pairs.length / step)) hlast
  exact hn.trans hm

/-- Every interleaving ends with the whole set received, exactly if the last chunk does not fill a batch. -/
theorem exchange_completes_iff (set : PruningPointUTXOSet) :
    EndsIn (Moves set) (start set) (completed set) ↔ (set.pairs.length / step + 1) % ibdBatchSize ≠ 0 := by
  refine ⟨fun hcompleted hlast => ?_, completed_of_last⟩
  obtain ⟨n, hn⟩ := interrupted_of_last hlast
  exact absurd (hcompleted.eq hn interrupted_stuck) nofun

def outputsOf (count : ℕ) : PruningPointUTXOSet where
  pruningPoint := 1
  pairs := (List.range count).map fun index => (⟨7, index⟩, ⟨5, ⟨[], 0⟩, 3, false⟩)
  nodup := by
    rw [map_map]
    refine nodup_range.map fun i j h => ?_
    simpa using h

/-- 98 full chunks and an empty one make a batch, after which the receiver asks for more. -/
theorem sender_fails_after_full_last_batch :
    EndsIn (Moves (outputsOf 98000)) (start (outputsOf 98000)) (interrupted (outputsOf 98000)) := by
  have hlast : ((outputsOf 98000).pairs.length / step + 1) % ibdBatchSize = 0 := by
    rw [show (outputsOf 98000).pairs.length = 98000 by simp [outputsOf]]
    decide
  obtain ⟨n, hn⟩ := interrupted_of_last hlast
  exact Network.endsIn hn interrupted_stuck

end Kaspad.IBD.UTXOSetExchange
