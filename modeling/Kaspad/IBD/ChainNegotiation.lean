import Kaspad.ConsensusState.MergeDepth
import Kaspad.Lib.Prog
import Kaspad.Sync.HeadersChainLocator

/-! # The negotiation of the missing chain segment

`negotiateMissingSyncerChainSegment` of `app/protocol/flows/v5/blockrelay/ibd.go`. The syncee asks for a
locator of the syncer's chain, looks for the first block in it that it knows, and asks again for a
locator between that block and the one above it. A peer is any function from the requests so far to an
answer.
-/

namespace Kaspad.IBD.ChainNegotiation
open Lib Prog HeadersSelectedChain Sync List Doubling

/-! ## The code -/

/-- `MsgRequestIBDChainBlockLocator`. Without hashes the full chain is queried. -/
structure Request where
  highHash : Option DomainHash
  lowHash : Option DomainHash
  deriving DecidableEq

inductive Answer
  | ibdChainBlockLocator (blockLocatorHashes : List DomainHash)
  | otherMessage
  /-- The route is closed, or the time is up. -/
  | noAnswer

abbrev Peer := List Request → Request → Answer

inductive Reason
  /-- `Expecting initial syncer chain block locator to contain at least one element` -/
  | emptyInitialLocator
  /-- `Sent invalid chain block …` -/
  | sentInvalidChainBlock (hash : DomainHash)
  /-- `Expecting the high and low hashes to match the locator bounds` -/
  | boundsDoNotMatch
  /-- `Number of zoom-in steps … exceeded the upper bound of 2*…` -/
  | tooManyZoomInSteps (chainNegotiationZoomCounts initialLocatorLen : ℕ)
  /-- `IBD chain negotiation with syncer … exceeded restart limit …` -/
  | tooManyRestarts (chainNegotiationRestartCounter : ℕ)
  /-- `Got block locator of size …>64 …` -/
  | locatorTooLong (length : ℕ)
  | unexpectedMessageType
  deriving DecidableEq

inductive NegotiationError (E : Type)
  | protocolError (shouldBan : Bool) (reason : Reason)
  | consensusError (err : E)
  | routeError
  | running
  deriving DecidableEq

structure Consensus (E : Type) where
  pruningPoint : Except E DomainHash
  getBlockInfo : DomainHash → Except E (Option ConsensusState.BlockStatus)
  isInSelectedParentChainOf : DomainHash → DomainHash → Except E Bool

structure Negotiation where
  locatorHashes : List DomainHash
  syncerHeaderSelectedTipHash : DomainHash
  chainNegotiationRestartCounter : ℕ
  chainNegotiationZoomCounts : ℕ
  initialLocatorLen : ℕ

variable {E : Type}

abbrev Run (E α : Type) := Prog (List Request) (NegotiationError E) α

/-- A known hash of the syncer chain and, if there is one, an unknown hash above it. -/
abbrev Segment := DomainHash × Option DomainHash

def getSyncerChainBlockLocator (peer : Peer) (request : Request) : Run E (List DomainHash) := do
  let requests ← get
  set (requests ++ [request])
  match peer requests request with
  | .ibdChainBlockLocator hashes =>
    if hashes.length > 64 then throw (.protocolError true (.locatorTooLong hashes.length)) else pure hashes
  | .otherMessage => throw (.protocolError true .unexpectedMessageType)
  | .noAnswer => throw .routeError

def getFullLocator (peer : Peer) : Run E (DomainHash × List DomainHash) := do
  match ← getSyncerChainBlockLocator peer ⟨none, none⟩ with
  | [] => throw (.protocolError true .emptyInitialLocator)
  | tip :: rest => pure (tip, tip :: rest)

/-- The last hash before a known one, and the known one. An error of `IsInSelectedParentChainOf` is logged only. -/
def scan (consensus : Consensus E) (pruningPoint : DomainHash) :
    Option DomainHash → List DomainHash → Except (NegotiationError E) (Option DomainHash × Option DomainHash)
  | lowestUnknown, [] => .ok (lowestUnknown, none)
  | lowestUnknown, hash :: hashes =>
    match consensus.getBlockInfo hash with
    | .error err => .error (.consensusError err)
    | .ok none => scan consensus pruningPoint (some hash) hashes
    | .ok (some .invalid) => .error (.protocolError true (.sentInvalidChainBlock hash))
    | .ok (some _) =>
      match consensus.isInSelectedParentChainOf pruningPoint hash with
      | .ok true => .ok (lowestUnknown, some hash)
      | _ => scan consensus pruningPoint (some hash) hashes

def zoomIn (s : Negotiation) (lowestUnknown currentHighestKnown : DomainHash) (locatorHashes : List DomainHash) :
    Except (NegotiationError E) (Segment ⊕ Negotiation) :=
  if locatorHashes.head? ≠ some lowestUnknown ∨ locatorHashes.getLast? ≠ some currentHighestKnown then
    .error (.protocolError true .boundsDoNotMatch)
  else
    let zoomCounts := s.chainNegotiationZoomCounts + 1
    if locatorHashes.length = 2 then .ok (.inl (s.syncerHeaderSelectedTipHash, some currentHighestKnown))
    else if zoomCounts > s.initialLocatorLen * 2 then
      .error (.protocolError true (.tooManyZoomInSteps zoomCounts s.initialLocatorLen))
    else .ok (.inr { s with locatorHashes := locatorHashes, chainNegotiationZoomCounts := zoomCounts })

def restart (peer : Peer) (s : Negotiation) : Run E (Segment ⊕ Negotiation) :=
  let restartCounter := s.chainNegotiationRestartCounter + 1
  if restartCounter > 32 then throw (.protocolError false (.tooManyRestarts restartCounter))
  else do
    let (tip, locatorHashes) ← getFullLocator peer
    pure (.inr ⟨locatorHashes, tip, restartCounter, 0, locatorHashes.length⟩)

def negotiationRound (consensus : Consensus E) (peer : Peer) (pruningPoint : DomainHash) (s : Negotiation) :
    Run E (Segment ⊕ Negotiation) := do
  match ← ofExcept (scan consensus pruningPoint none s.locatorHashes) with
  | (none, currentHighestKnown) => pure (.inl (s.syncerHeaderSelectedTipHash, currentHighestKnown))
  | (some _, none) => pure (.inl (s.syncerHeaderSelectedTipHash, none))
  | (some lowestUnknown, some currentHighestKnown) =>
    if s.locatorHashes.length = 1 then pure (.inl (s.syncerHeaderSelectedTipHash, some currentHighestKnown))
    else do
      let locatorHashes ← getSyncerChainBlockLocator peer ⟨some lowestUnknown, some currentHighestKnown⟩
      if locatorHashes.length > 0 then ofExcept (zoomIn s lowestUnknown currentHighestKnown locatorHashes)
      else restart peer s

def negotiateMissingSyncerChainSegment (consensus : Consensus E) (peer : Peer) (rounds : ℕ) : Run E Segment := do
  let (tip, locatorHashes) ← getFullLocator peer
  let pruningPoint ← ofExcept (consensus.pruningPoint.mapError .consensusError)
  untilDone .running (negotiationRound consensus peer pruningPoint) rounds
    ⟨locatorHashes, tip, 0, 0, locatorHashes.length⟩

/-! ## The scan -/

section
variable {consensus : Consensus E} {pruningPoint : DomainHash}
  {hashes : List DomainHash} {lowestUnknown : Option DomainHash}

theorem scan_neighbours {a b : DomainHash}
    (h : scan consensus pruningPoint lowestUnknown hashes = .ok (some a, some b)) :
    ∃ before after, lowestUnknown.toList ++ hashes = before ++ a :: b :: after := by
  induction hashes generalizing lowestUnknown with
  | nil => cases h
  | cons hash hashes ih =>
    have hnext (h : scan consensus pruningPoint (some hash) hashes = .ok (some a, some b)) :
        ∃ before after, lowestUnknown.toList ++ hash :: hashes = before ++ a :: b :: after := by
      obtain ⟨before, after, heq⟩ := ih h
      rw [Option.toList_some, singleton_append] at heq
      exact ⟨lowestUnknown.toList ++ before, after, by rw [heq, append_assoc]⟩
    unfold scan at h
    split at h
    · cases h
    · exact hnext h
    · cases h
    split at h
    · obtain ⟨rfl, hb⟩ := Prod.mk.inj (Except.ok.inj h)
      cases hb
      exact ⟨[], hashes, rfl⟩
    · exact hnext h

def ScanError (consensus : Consensus E) (hashes : List DomainHash) (e : NegotiationError E) : Prop :=
  (∃ hash ∈ hashes, ∃ err, consensus.getBlockInfo hash = .error err ∧ e = .consensusError err) ∨
    ∃ hash ∈ hashes, consensus.getBlockInfo hash = .ok (some .invalid) ∧
      e = .protocolError true (.sentInvalidChainBlock hash)

theorem scanError_of_scan {e : NegotiationError E} (h : scan consensus pruningPoint lowestUnknown hashes = .error e) :
    ScanError consensus hashes e := by
  induction hashes generalizing lowestUnknown with
  | nil => cases h
  | cons hash hashes ih =>
    have hnext (h : scan consensus pruningPoint (some hash) hashes = .error e) :
        ScanError consensus (hash :: hashes) e := by
      rcases ih h with ⟨hash', hmem, herr⟩ | ⟨hash', hmem, hinvalid⟩
      · exact .inl ⟨hash', mem_cons_of_mem _ hmem, herr⟩
      · exact .inr ⟨hash', mem_cons_of_mem _ hmem, hinvalid⟩
    unfold scan at h
    split at h
    · rename_i err hinfo
      exact .inl ⟨hash, mem_cons_self, err, hinfo, (Except.error.inj h).symm⟩
    · exact hnext h
    · rename_i hinfo
      exact .inr ⟨hash, mem_cons_self, hinfo, (Except.error.inj h).symm⟩
    split at h
    · cases h
    · exact hnext h

end

/-! ## Any peer -/

/-- The bound on the requests of one negotiation. -/
def maxRequests : ℕ := 4290

/-- Up to 128 zooms after the start and after each of 32 restarts. -/
def Negotiation.requestsLeft (s : Negotiation) : ℕ :=
  (32 - s.chainNegotiationRestartCounter) * 130 + (129 - s.chainNegotiationZoomCounts)

structure Within (s : Negotiation) (requests : List Request) : Prop where
  restarts : s.chainNegotiationRestartCounter ≤ 32
  zooms : s.chainNegotiationZoomCounts ≤ 128
  initialLen : s.initialLocatorLen ≤ 64
  budget : requests.length + s.requestsLeft ≤ maxRequests

def Stops (e : NegotiationError E) (requests : List Request) : Prop := e ≠ .running ∧ requests.length ≤ maxRequests

section
variable {consensus : Consensus E} {peer : Peer} {pruningPoint : DomainHash}
  {requests : List Request} {s : Negotiation}

theorem getSyncerChainBlockLocator_ends (request : Request) (hlen : requests.length < maxRequests) :
    Ends (fun hashes requests' => requests'.length = requests.length + 1 ∧ hashes.length ≤ 64) Stops
      (exec (getSyncerChainBlockLocator peer request : Run E _) requests) := by
  have hsent : (requests ++ [request]).length = requests.length + 1 := by simp
  have hbound : (requests ++ [request]).length ≤ maxRequests := by omega
  rw [getSyncerChainBlockLocator, exec_bind_ok (exec_get requests), exec_bind_ok (exec_set _ requests)]
  cases peer requests request with
  | ibdChainBlockLocator hashes =>
    dsimp only
    split_ifs with hlong
    · exact ⟨nofun, hbound⟩
    · exact ⟨hsent, not_lt.mp hlong⟩
  | otherMessage => exact ⟨nofun, hbound⟩
  | noAnswer => exact ⟨nofun, hbound⟩

theorem getFullLocator_ends (hlen : requests.length < maxRequests) :
    Ends (fun r requests' => requests'.length = requests.length + 1 ∧ r.2.length ≤ 64) Stops
      (exec (getFullLocator peer : Run E _) requests) := by
  refine ends_bind (getSyncerChainBlockLocator_ends _ hlen) fun hashes requests' h => ?_
  cases hashes with
  | nil => exact ⟨nofun, by omega⟩
  | cons tip rest => exact h

variable {requests' : List Request}

theorem zoomIn_ends (h : Within s requests) (hrequests : requests'.length = requests.length + 1)
    (lowestUnknown currentHighestKnown : DomainHash) (hashes : List DomainHash) :
    Ends (fun r requests' => Sum.elim (fun _ => requests'.length ≤ maxRequests)
        (fun s' => Within s' requests' ∧ s'.requestsLeft < s.requestsLeft) r) Stops
      (exec (ofExcept (zoomIn s lowestUnknown currentHighestKnown hashes) : Run E _) requests') := by
  have hbudget := h.budget
  have hinitial := h.initialLen
  have hzooms := h.zooms
  unfold Negotiation.requestsLeft at hbudget
  rw [exec_ofExcept]
  dsimp only [zoomIn]
  split_ifs with hbounds htwo hmany
  · exact ⟨nofun, by omega⟩
  · exact (show requests'.length ≤ maxRequests by omega)
  · exact ⟨nofun, by omega⟩
  refine ⟨⟨h.restarts, ?_, h.initialLen, ?_⟩, ?_⟩
  · dsimp only
    omega
  · unfold Negotiation.requestsLeft
    dsimp only
    omega
  unfold Negotiation.requestsLeft
  dsimp only
  omega

theorem restart_ends (h : Within s requests) (hrequests : requests'.length = requests.length + 1) :
    Ends (fun r requests' => Sum.elim (fun _ => requests'.length ≤ maxRequests)
        (fun s' => Within s' requests' ∧ s'.requestsLeft < s.requestsLeft) r) Stops
      (exec (restart peer s : Run E _) requests') := by
  have hbudget := h.budget
  have hzooms := h.zooms
  unfold Negotiation.requestsLeft at hbudget
  unfold restart
  dsimp only
  split_ifs with hmany
  · exact ⟨nofun, by omega⟩
  refine ends_bind (getFullLocator_ends (by omega)) ?_
  rintro ⟨tip, hashes⟩ requests'' ⟨hlength, hshort⟩
  refine ⟨⟨?_, Nat.zero_le _, hshort, ?_⟩, ?_⟩
  · dsimp only
    omega
  · unfold Negotiation.requestsLeft
    dsimp only
    omega
  unfold Negotiation.requestsLeft
  dsimp only
  omega

theorem negotiationRound_ends (s : Negotiation) (requests : List Request) (h : Within s requests) :
    Ends (fun r requests' => Sum.elim (fun _ => requests'.length ≤ maxRequests)
        (fun s' => Within s' requests' ∧ s'.requestsLeft < s.requestsLeft) r) Stops
      (exec (negotiationRound consensus peer pruningPoint s) requests) := by
  have hleft : requests.length < maxRequests := by
    have hbudget := h.budget
    have hzooms := h.zooms
    unfold Negotiation.requestsLeft at hbudget
    omega
  rw [negotiationRound, exec_bind, exec_ofExcept]
  rcases hscan : scan consensus pruningPoint none s.locatorHashes with e | ⟨_ | lowestUnknown, _ | known⟩
  · rcases scanError_of_scan hscan with ⟨_, -, _, -, rfl⟩ | ⟨_, -, -, rfl⟩
    · exact ⟨nofun, hleft.le⟩
    · exact ⟨nofun, hleft.le⟩
  · exact hleft.le
  · exact hleft.le
  · exact hleft.le
  split_ifs with hone
  · exact hleft.le
  refine ends_bind (getSyncerChainBlockLocator_ends _ hleft) fun hashes requests' hasked => ?_
  split_ifs
  · exact zoomIn_ends h hasked.1 lowestUnknown known hashes
  · exact restart_ends h hasked.1

theorem negotiate_ends (rounds : ℕ) (hrounds : maxRequests ≤ rounds) :
    Ends (fun _ requests => requests.length ≤ maxRequests) Stops
      (exec (negotiateMissingSyncerChainSegment consensus peer rounds) []) := by
  refine ends_bind (getFullLocator_ends (by decide)) ?_
  rintro ⟨tip, hashes⟩ requests ⟨hlength, hshort⟩
  rw [length_nil, Nat.zero_add] at hlength
  refine ends_bind (Q := fun _ requests' => requests' = requests) ?_ ?_
  · rw [exec_ofExcept]
    cases consensus.pruningPoint with
    | error err => exact ⟨nofun, by rw [hlength]; decide⟩
    | ok pruningPoint => rfl
  rintro pruningPoint _ rfl
  have hleft : Negotiation.requestsLeft ⟨hashes, tip, 0, 0, hashes.length⟩ + 1 = maxRequests := rfl
  refine ends_untilDone Negotiation.requestsLeft negotiationRound_ends (by omega)
    ⟨Nat.zero_le _, Nat.zero_le _, hshort, by omega⟩

end

/-! ## A syncer whose chain does not change -/

structure Syncer where
  victims : Victims
  store : ChainStore
  genesisHash : DomainHash
  pruningPoint : DomainHash
  headersSelectedTip : DomainHash
  chain : List DomainHash
  coherent : store.Coherent
  lists : store.db.Lists chain
  short : chain.length < 2 ^ 62
  tip : chain.getLast? = some headersSelectedTip
  onChain : pruningPoint ∈ chain

namespace Syncer
variable (syncer : Syncer) (rounds : ℕ)

def createLocator (lowHash highHash : DomainHash) : Except LocatorError (List DomainHash) :=
  createHeadersSelectedChainBlockLocator syncer.victims syncer.store syncer.genesisHash rounds lowHash highHash

/-- On any error the flow ends without an answer: `errors.Is` has its arguments the wrong way round. -/
def handleRequest (request : Request) : Answer :=
  match (match request.highHash, request.lowHash with
    | some highHash, some lowHash => syncer.createLocator rounds lowHash highHash
    | _, _ => syncer.createLocator rounds syncer.pruningPoint syncer.headersSelectedTip) with
  | .ok locator => .ibdChainBlockLocator locator
  | .error _ => .noAnswer

/-- A peer that answers as this code does. -/
def asPeer : Peer := fun _ request => syncer.handleRequest rounds request

def Meets (request : Request) : Prop :=
  ∃ hashes, syncer.handleRequest rounds request = .ibdChainBlockLocator hashes ∧ hashes.length ≤ 64 ∧
    (∀ hash, request.highHash = some hash → hashes.head? = some hash) ∧
    ∀ hash, request.lowHash = some hash → hashes.getLast? = some hash

end Syncer

section
variable {syncer : Syncer} {rounds : ℕ}

theorem Syncer.getElem?_eq {i : ℕ} (h : i < syncer.chain.length) :
    syncer.chain[i]? = some (syncer.chain.getD i 0) := by
  rw [getD_eq_getElem _ _ h, List.getElem?_eq_getElem h]

variable {hi : ℕ} {l : List DomainHash}

theorem length_hashesAt_points (syncer : Syncer) (lo : ℕ) (h : hi < syncer.chain.length) :
    (hashesAt syncer.chain (Doubling.points lo hi)).length = (hi - lo).size + 1 ∧ (hi - lo).size ≤ 62 := by
  have hshort := syncer.short
  exact ⟨by rw [hashesAt, length_map, length_points], Nat.size_le.mpr (by omega)⟩

variable {lo : ℕ}

theorem head?_hashesAt_points (h : lo ≤ hi) : (hashesAt l (Doubling.points lo hi)).head? = some (l.getD hi 0) := by
  rw [hashesAt, List.head?_map, Doubling.head?_points h]
  rfl

theorem getLast?_hashesAt_points : (hashesAt l (Doubling.points lo hi)).getLast? = some (l.getD lo 0) := by
  rw [hashesAt, List.getLast?_map, Doubling.getLast?_points]
  rfl

variable (hrounds : 63 ≤ rounds)
include hrounds

theorem Syncer.handleRequest_between (hle : lo ≤ hi) (hhi : hi < syncer.chain.length) :
    syncer.handleRequest rounds ⟨some (syncer.chain.getD hi 0), some (syncer.chain.getD lo 0)⟩ =
      .ibdChainBlockLocator (hashesAt syncer.chain (Doubling.points lo hi)) := by
  have hlocator := createHeadersSelectedChainBlockLocator_eq (v := syncer.victims) syncer.coherent syncer.lists
    (by have := syncer.short; omega) (Syncer.getElem?_eq (lt_of_le_of_lt hle hhi)) (Syncer.getElem?_eq hhi) hle
    syncer.genesisHash (lt_of_le_of_lt (length_hashesAt_points syncer lo hhi).2 hrounds)
  simp only [handleRequest, createLocator, hlocator]

theorem Syncer.meets_between (hle : lo ≤ hi) (hhi : hi < syncer.chain.length) :
    syncer.Meets rounds ⟨some (syncer.chain.getD hi 0), some (syncer.chain.getD lo 0)⟩ := by
  have hlen := length_hashesAt_points syncer lo hhi
  refine ⟨_, syncer.handleRequest_between hrounds hle hhi, by omega, fun hash h => ?_, fun hash h => ?_⟩
  · rw [head?_hashesAt_points hle]
    exact h
  rw [getLast?_hashesAt_points]
  exact h

theorem Syncer.handleRequest_full : ∃ lo hi, lo ≤ hi ∧ hi < syncer.chain.length ∧
      syncer.handleRequest rounds ⟨none, none⟩ =
        .ibdChainBlockLocator (hashesAt syncer.chain (Doubling.points lo hi)) := by
  obtain ⟨lo, hlo⟩ := List.getElem?_of_mem syncer.onChain
  have hlast := syncer.tip
  rw [List.getLast?_eq_getElem?] at hlast
  have hlt := (List.getElem?_eq_some_iff.mp hlo).1
  have hlocator := createHeadersSelectedChainBlockLocator_eq (v := syncer.victims) syncer.coherent syncer.lists
    (by have := syncer.short; omega) hlo hlast (by omega) syncer.genesisHash
    (lt_of_le_of_lt (length_hashesAt_points syncer lo (by omega)).2 hrounds)
  refine ⟨lo, syncer.chain.length - 1, by omega, by omega, ?_⟩
  simp only [handleRequest, createLocator, hlocator]

omit hrounds

theorem exec_getSyncerChainBlockLocator (requests : List Request) {request : Request} {hashes : List DomainHash}
    (hanswer : syncer.handleRequest rounds request = .ibdChainBlockLocator hashes) (hlen : hashes.length ≤ 64) :
    exec (getSyncerChainBlockLocator (syncer.asPeer rounds) request : Run E _) requests =
      (.ok hashes, requests ++ [request]) := by
  have hpeer : syncer.asPeer rounds requests request = .ibdChainBlockLocator hashes := hanswer
  rw [getSyncerChainBlockLocator, exec_bind_ok (exec_get requests), exec_bind_ok (exec_set _ requests), hpeer]
  dsimp only
  rw [if_neg (by omega), exec_pure]

/-- The zooms made and those that the distance allows are fewer than twice the length of the first locator. -/
structure Zoomed (syncer : Syncer) (rounds initialLen : ℕ) (s : Negotiation) (requests : List Request) : Prop where
  locator : ∃ lo hi, lo ≤ hi ∧ hi < syncer.chain.length ∧
    s.locatorHashes = hashesAt syncer.chain (Doubling.points lo hi) ∧
    Doubling.zoomBound (hi - lo) + s.chainNegotiationZoomCounts < 2 * initialLen
  initialLen : s.initialLocatorLen = initialLen
  sent : requests.length = s.chainNegotiationZoomCounts + 1
  meets : ∀ request ∈ requests, syncer.Meets rounds request

def Finished (syncer : Syncer) (rounds initialLen : ℕ) (requests : List Request) : Prop :=
  requests.length ≤ 2 * initialLen + 1 ∧ ∀ request ∈ requests, syncer.Meets rounds request

/-- The failure comes from the own consensus, not from the peer. -/
def OwnError (consensus : Consensus E) (e : NegotiationError E) (_ : List Request) : Prop :=
  ∃ err, e = .consensusError err ∧
    (consensus.pruningPoint = .error err ∨ ∃ hash, consensus.getBlockInfo hash = .error err)

variable {consensus : Consensus E} {pruningPoint : DomainHash} {initialLen : ℕ}

theorem Zoomed.finished {s : Negotiation} {requests : List Request} (h : Zoomed syncer rounds initialLen s requests) :
    Finished syncer rounds initialLen requests := by
  obtain ⟨lo, hi, -, -, -, hbound⟩ := h.locator
  exact ⟨by have := h.sent; omega, h.meets⟩

theorem scan_points {indices : List ℕ} {lowestUnknown known : DomainHash}
    (h : scan consensus pruningPoint none (hashesAt l indices) = .ok (some lowestUnknown, some known)) :
    ∃ before after i i', indices = before ++ i :: i' :: after ∧ l.getD i 0 = lowestUnknown ∧ l.getD i' 0 = known := by
  obtain ⟨before, after, heq⟩ := scan_neighbours h
  obtain ⟨before', rest, hindices, -, hrest⟩ := map_eq_append_iff.mp heq
  obtain ⟨i, rest', rfl, hi, hrest'⟩ := map_eq_cons_iff.mp hrest
  obtain ⟨i', after', rfl, hi', -⟩ := map_eq_cons_iff.mp hrest'
  exact ⟨before', after', i, i', hindices, hi, hi'⟩

variable (hvalid : ∀ hash ∈ syncer.chain, consensus.getBlockInfo hash ≠ .ok (some .invalid))
include hrounds hvalid

theorem negotiationRound_zoomed (s : Negotiation) (requests : List Request)
    (h : Zoomed syncer rounds initialLen s requests) :
    Ends (fun r requests' => Sum.elim (fun _ => Finished syncer rounds initialLen requests')
        (fun s' => Zoomed syncer rounds initialLen s' requests' ∧
          2 * initialLen - s'.chainNegotiationZoomCounts < 2 * initialLen - s.chainNegotiationZoomCounts) r)
      (OwnError consensus) (exec (negotiationRound consensus (syncer.asPeer rounds) pruningPoint s) requests) := by
  obtain ⟨lo, hi, hle, hhi, hlocator, hbound⟩ := h.locator
  have hmem : ∀ hash ∈ s.locatorHashes, hash ∈ syncer.chain := by
    intro hash hhash
    rw [hlocator, hashesAt, mem_map] at hhash
    obtain ⟨i, hi', rfl⟩ := hhash
    exact mem_of_getElem? (Syncer.getElem?_eq (lt_of_le_of_lt (mem_points hle hi').2 hhi))
  rw [negotiationRound, exec_bind, exec_ofExcept]
  rcases hscan : scan consensus pruningPoint none s.locatorHashes with e | ⟨_ | lowestUnknown, _ | known⟩
  · rcases scanError_of_scan hscan with ⟨hash, -, err, herr, rfl⟩ | ⟨hash, hhash, hinvalid, -⟩
    · exact ⟨err, rfl, .inr ⟨hash, herr⟩⟩
    · exact (hvalid hash (hmem hash hhash) hinvalid).elim
  · exact h.finished
  · exact h.finished
  · exact h.finished
  dsimp only
  split_ifs with hone
  · exact h.finished
  obtain ⟨before, after, i, i', hpoints, rfl, rfl⟩ := scan_points (hlocator ▸ hscan)
  obtain ⟨-, hlt, -⟩ := points_gap hle hpoints
  have hi := lt_of_le_of_lt (mem_points hle (i := i) (by simp [hpoints])).2 hhi
  have hlen := length_hashesAt_points syncer i' hi
  have hanswer := syncer.handleRequest_between hrounds hlt.le hi
  rw [exec_bind_ok (exec_getSyncerChainBlockLocator requests hanswer (by omega)), if_pos (by omega), exec_ofExcept]
  have hmeets : ∀ request ∈ requests ++ [⟨some (syncer.chain.getD i 0), some (syncer.chain.getD i' 0)⟩],
      syncer.Meets rounds request := by
    intro request hrequest
    rcases mem_append.mp hrequest with hold | hnew
    · exact h.meets request hold
    rw [mem_singleton.mp hnew]
    exact syncer.meets_between hrounds hlt.le hi
  have hsent := h.sent
  have hinitial := h.initialLen
  dsimp only [zoomIn]
  rw [head?_hashesAt_points hlt.le, getLast?_hashesAt_points, if_neg (by simp)]
  by_cases htwo : (hashesAt syncer.chain (Doubling.points i' i)).length = 2
  · rw [if_pos htwo]
    refine ⟨?_, hmeets⟩
    rw [length_append, length_singleton]
    omega
  have hsize : (i - i').size ≠ 1 := by omega
  have hgap : 2 ≤ i - i' := by
    by_contra hone
    exact hsize (by rw [show i - i' = 1 by omega, Nat.size_one])
  have hfalls := zoomBound_gap_lt hle hpoints hgap
  rw [if_neg htwo, if_neg (by omega)]
  refine ⟨⟨⟨i', i, hlt.le, hi, rfl, ?_⟩, hinitial, ?_, hmeets⟩, ?_⟩
  · dsimp only
    omega
  · rw [length_append, length_singleton, hsent]
  dsimp only
  omega

theorem negotiate_finishes {n : ℕ} (hn : maxRequests ≤ n) :
    ∃ initial, syncer.handleRequest rounds ⟨none, none⟩ = .ibdChainBlockLocator initial ∧
      Ends (fun _ => Finished syncer rounds initial.length) (OwnError consensus)
        (exec (negotiateMissingSyncerChainSegment consensus (syncer.asPeer rounds) n) []) := by
  obtain ⟨lo, hi, hle, hhi, hanswer⟩ := syncer.handleRequest_full hrounds
  obtain ⟨hlen, hsize⟩ := length_hashesAt_points syncer lo hhi
  have hhead := head?_hashesAt_points (l := syncer.chain) hle
  generalize hinitial : hashesAt syncer.chain (Doubling.points lo hi) = initial at hanswer hlen hhead
  obtain ⟨tip, rest, rfl⟩ : ∃ tip rest, initial = tip :: rest := exists_cons_of_length_pos (by omega)
  refine ⟨_, hanswer, ?_⟩
  have hfull : exec (getFullLocator (syncer.asPeer rounds) : Run E _) [] =
      (.ok (tip, tip :: rest), [] ++ [⟨none, none⟩]) := by
    rw [getFullLocator, exec_bind_ok (exec_getSyncerChainBlockLocator [] hanswer (by omega))]
    rfl
  rw [negotiateMissingSyncerChainSegment, exec_bind_ok hfull]
  refine ends_bind (Q := fun _ requests => requests = [⟨none, none⟩]) ?_ ?_
  · rw [exec_ofExcept]
    cases hpoint : consensus.pruningPoint with
    | error err => exact ⟨err, rfl, .inl hpoint⟩
    | ok pruningPoint => rfl
  rintro pruningPoint _ rfl
  have hfirst : syncer.Meets rounds ⟨none, none⟩ := ⟨_, hanswer, by omega, nofun, nofun⟩
  have hbound := zoomBound_le (hi - lo)
  have hmax : maxRequests = 4290 := rfl
  refine ends_untilDone (fun s => 2 * (tip :: rest).length - s.chainNegotiationZoomCounts)
    (negotiationRound_zoomed hrounds hvalid) (by omega)
    ⟨⟨lo, hi, hle, hhi, hinitial.symm, by dsimp only; omega⟩, rfl, rfl, ?_⟩
  intro request hrequest
  rw [mem_singleton.mp hrequest]
  exact hfirst

end

/-- The negotiation ends without a protocol error, after no more zooms than twice the length of the first locator.
-/
theorem negotiation_terminates (consensus : Consensus E) {n : ℕ} (hn : maxRequests ≤ n) :
    (∀ (syncer : Syncer) (rounds : ℕ), 63 ≤ rounds →
      (∀ hash ∈ syncer.chain, consensus.getBlockInfo hash ≠ .ok (some .invalid)) →
      ∃ initial, syncer.handleRequest rounds ⟨none, none⟩ = .ibdChainBlockLocator initial ∧
        Ends (fun _ => Finished syncer rounds initial.length) (OwnError consensus)
          (exec (negotiateMissingSyncerChainSegment consensus (syncer.asPeer rounds) n) [])) ∧
      ∀ peer : Peer, Ends (fun _ requests => requests.length ≤ maxRequests) Stops
        (exec (negotiateMissingSyncerChainSegment consensus peer n) []) :=
  ⟨fun _ _ hrounds hvalid => negotiate_finishes hrounds hvalid hn, fun _ => negotiate_ends n hn⟩

def sampleSyncer : Syncer where
  victims := ⟨fun _ => 0, fun _ => 0⟩
  store := sampleStore
  genesisHash := 7
  pruningPoint := 7
  headersSelectedTip := 9
  chain := [7, 8, 9]
  coherent := sampleStore_coherent
  lists := sampleStore_lists
  short := by decide
  tip := rfl
  onChain := by decide

def sampleConsensus : Consensus Unit :=
  ⟨.ok 7, fun hash => .ok (if hash ≤ 8 then some .utxoValid else none), fun _ _ => .ok true⟩

theorem negotiation_terminates_sample :
    ∃ requests, exec (negotiateMissingSyncerChainSegment sampleConsensus (sampleSyncer.asPeer 63) maxRequests) [] =
        (.ok (9, some 8), requests) ∧ Finished sampleSyncer 63 3 requests ∧ requests.length ≤ maxRequests := by
  obtain ⟨initial, hinitial, hends⟩ := (negotiation_terminates sampleConsensus le_rfl).1 sampleSyncer 63 le_rfl
    (by decide)
  have hany := (negotiation_terminates sampleConsensus le_rfl).2 (sampleSyncer.asPeer 63)
  have hresult : (exec (negotiateMissingSyncerChainSegment sampleConsensus (sampleSyncer.asPeer 63) maxRequests) []).1 =
      .ok (9, some 8) := by decide +kernel
  have hlocator : sampleSyncer.handleRequest 63 ⟨none, none⟩ = .ibdChainBlockLocator [9, 8, 7] := by rfl
  obtain rfl := Answer.ibdChainBlockLocator.inj (hlocator.symm.trans hinitial)
  generalize exec (negotiateMissingSyncerChainSegment sampleConsensus (sampleSyncer.asPeer 63) maxRequests) [] = r
    at hends hany hresult ⊢
  obtain ⟨_, requests⟩ := r
  subst hresult
  exact ⟨requests, rfl, hends, hany⟩

end Kaspad.IBD.ChainNegotiation
