import Kaspad.Lib.Prog
import Kaspad.Sync.AntiPast

/-! # Serving headers

`HandleRequestHeaders` of `app/protocol/flows/v5/blockrelay`. It is written as the machine that its two
nested loops are: it waits for a request, or it serves the headers from a low to a high hash. The peer
closes the route after its last message.
-/

namespace Kaspad.BlockRelay
open Lib Prog

/-! ## The code -/

inductive Message
  | requestHeaders (lowHash highHash : DomainHash)
  | requestNextHeaders
  deriving DecidableEq

inductive Reason
  /-- `Block … does not exist` -/
  | blockDoesNotExist (hash : DomainHash)
  /-- `Expected … to be on the selected chain of …` -/
  | notOnSelectedChain (lowHash highHash : DomainHash)
  /-- `received unexpected message type. expected: …, got: …` -/
  | unexpectedMessageType
  deriving DecidableEq

inductive FlowError (E : Type)
  | errRouteClosed
  | protocolError (shouldBan : Bool) (reason : Reason)
  | consensusError (err : E)
  /-- A failed type assertion or an index out of range. -/
  | panic
  deriving DecidableEq

inductive Response (Header : Type)
  | blockHeaders (headers : List Header)
  | doneHeaders

structure Context (D E Header : Type) where
  hasHeader : DomainHash → Prog D E Bool
  isInSelectedParentChainOf : DomainHash → DomainHash → Prog D E Bool
  getHashesBetween : DomainHash → DomainHash → ℕ → Prog D E (List DomainHash × DomainHash)
  getBlockHeader : DomainHash → Prog D E Header
  enqueue : Response Header → Prog D (FlowError E) Unit

structure Flow (D : Type) where
  incoming : List Message
  domain : D

variable {D E Header α : Type}

abbrev Run (D E α : Type) := Prog (Flow D) (FlowError E) α

def dequeue : Run D E Message := do
  let flow ← get
  match flow.incoming with
  | [] => throw .errRouteClosed
  | message :: incoming =>
    set { flow with incoming := incoming }
    pure message

def call (m : Prog D E α) : Run D E α :=
  zoomError Flow.domain (fun d flow => { flow with domain := d }) .consensusError m

def maxBlocks : ℕ := 2 ^ 10

section
variable (context : Context D E Header)

def send (response : Response Header) : Run D E Unit :=
  zoom Flow.domain (fun d flow => { flow with domain := d }) (context.enqueue response)

/-- `receiveRequestHeaders`, with a type assertion that is not checked. -/
def receiveRequestHeaders : Run D E (DomainHash × DomainHash) := do
  match ← dequeue with
  | .requestHeaders lowHash highHash => pure (lowHash, highHash)
  | .requestNextHeaders => throw .panic

def acceptRequest : Run D E (DomainHash × DomainHash) := do
  let (lowHash, highHash) ← receiveRequestHeaders
  let lowHasHeader ← call (context.hasHeader lowHash)
  returnIf (!lowHasHeader) (.protocolError true (.blockDoesNotExist lowHash))
  let highHasHeader ← call (context.hasHeader highHash)
  returnIf (!highHasHeader) (.protocolError true (.blockDoesNotExist highHash))
  let isLowSelectedAncestorOfHigh ← call (context.isInSelectedParentChainOf lowHash highHash)
  returnIf (!isLowSelectedAncestorOfHigh) (.protocolError true (.notOnSelectedChain lowHash highHash))
  pure (lowHash, highHash)

def getHeaders : List DomainHash → Run D E (List Header)
  | [] => pure []
  | hash :: hashes => do
    let header ← call (context.getBlockHeader hash)
    let headers ← getHeaders hashes
    pure (header :: headers)

def sendBatch (lowHash highHash : DomainHash) : Run D E DomainHash := do
  let (blockHashes, _) ← call (context.getHashesBetween lowHash highHash maxBlocks)
  let blockHeaders ← getHeaders context blockHashes
  send context (.blockHeaders blockHeaders)
  match ← dequeue with
  | .requestNextHeaders =>
    match blockHashes.getLast? with
    | some hash => pure hash
    | none => throw .panic
  | .requestHeaders _ _ => throw (.protocolError true .unexpectedMessageType)

inductive Stage
  | waiting
  | serving (lowHash highHash : DomainHash)
  deriving DecidableEq

def step : Stage → Run D E Stage
  | .waiting => do
    let (lowHash, highHash) ← acceptRequest context
    pure (.serving lowHash highHash)
  | .serving lowHash highHash => do
    if lowHash = highHash then
      send context .doneHeaders
      pure .waiting
    else
      let lowHash ← sendBatch context lowHash highHash
      pure (.serving lowHash highHash)

def start (rounds : ℕ) : Run D E Empty := iterate .errRouteClosed (step context) rounds .waiting

/-- Every message is taken by one round, and at most one round follows it that takes none. -/
def handleRequestHeaders : Run D E Empty := do start context (2 * (← get).incoming.length + 1)

end

/-! ## Panics of one round -/

theorem step_serving (context : Context D E Header) (lowHash highHash : DomainHash) :
    step context (.serving lowHash highHash) =
      if lowHash = highHash then (do send context .doneHeaders; pure .waiting)
      else (do let lowHash ← sendBatch context lowHash highHash; pure (.serving lowHash highHash)) := rfl

theorem exec_dequeue_cons {s : Flow D} {message : Message} {incoming : List Message}
    (h : s.incoming = message :: incoming) :
    exec (dequeue : Run D E Message) s = (.ok message, { s with incoming := incoming }) := by
  unfold dequeue
  rw [exec_bind, exec_get]
  simp only [h, exec_bind, exec_set, exec_pure]

theorem exec_dequeue_nil {s : Flow D} (h : s.incoming = []) :
    exec (dequeue : Run D E Message) s = (.error .errRouteClosed, s) := by
  unfold dequeue
  rw [exec_bind, exec_get]
  simp only [h, exec_throw]

def Takes (messages : ℕ) (m : Run D E α) : Prop :=
  ∀ s a s', exec m s = (.ok a, s') → s'.incoming.length + messages = s.incoming.length

theorem takes_pure (a : α) : Takes 0 (pure a : Run D E α) := by
  intro s a' s' h
  rw [← (Prod.mk.inj h).2]
  rfl

theorem takes_throw (n : ℕ) (err : FlowError E) : Takes n (throw err : Run D E α) := nofun

theorem Takes.bind {β : Type} {n : ℕ} {m : Run D E α} {k : α → Run D E β} (hm : Takes n m)
    (hk : ∀ a, Takes 0 (k a)) : Takes n (m >>= k) := by
  intro s b s' h
  obtain ⟨a, s₁, h₁, h₂⟩ := exec_bind_eq_ok h
  have := hm s a s₁ h₁
  have := hk a s₁ b s' h₂
  omega

theorem Takes.then {β : Type} {n : ℕ} {m : Run D E α} {k : α → Run D E β} (hm : Takes 0 m)
    (hk : ∀ a, Takes n (k a)) : Takes n (m >>= k) := by
  intro s b s' h
  obtain ⟨a, s₁, h₁, h₂⟩ := exec_bind_eq_ok h
  have := hm s a s₁ h₁
  have := hk a s₁ b s' h₂
  omega

theorem takes_call (m : Prog D E α) : Takes 0 (call m) := by
  intro s a s' h
  rw [← (Prod.mk.inj h).2]
  rfl

theorem takes_returnIf (c : Bool) (err : FlowError E) : Takes (D := D) 0 (returnIf c err) := by
  unfold returnIf
  split_ifs
  · exact takes_throw 0 err
  · exact takes_pure _

theorem takes_dequeue : Takes 1 (dequeue : Run D E Message) := by
  intro s a s' h
  cases hincoming : s.incoming with
  | nil => rw [exec_dequeue_nil hincoming] at h; cases h
  | cons message incoming =>
    rw [exec_dequeue_cons hincoming] at h
    rw [← (Prod.mk.inj h).2]
    rfl

abbrev Calm (m : Run D E α) : Prop := Spares .panic (fun _ => True) m

theorem calm_call (m : Prog D E α) : Calm (call m) := spares_zoomError nofun (fun _ _ _ => trivial) m

theorem calm_returnIf (c shouldBan : Bool) (reason : Reason) :
    Calm (returnIf c (.protocolError shouldBan reason) : Run D E PUnit) := spares_returnIf c nofun

theorem calm_dequeue : Calm (dequeue : Run D E Message) := by
  refine ⟨fun s _ hraises => ?_, fun _ _ => trivial⟩
  unfold Raises at hraises
  cases hincoming : s.incoming with
  | nil => rw [exec_dequeue_nil hincoming] at hraises; cases hraises
  | cons message incoming => rw [exec_dequeue_cons hincoming] at hraises; cases hraises

section
variable (context : Context D E Header)

theorem takes_send (response : Response Header) : Takes 0 (send context response) := by
  intro s a s' h
  rw [← (Prod.mk.inj h).2]
  rfl

theorem takes_acceptRequest : Takes 1 (acceptRequest context) := by
  refine Takes.bind ?_ fun hashes => ?_
  · refine takes_dequeue.bind fun message => ?_
    cases message with
    | requestHeaders lowHash highHash => exact takes_pure _
    | requestNextHeaders => exact takes_throw 0 _
  · refine (takes_call _).bind fun _ => (takes_returnIf _ _).bind fun _ => ?_
    refine (takes_call _).bind fun _ => (takes_returnIf _ _).bind fun _ => ?_
    exact (takes_call _).bind fun _ => (takes_returnIf _ _).bind fun _ => takes_pure _

theorem takes_getHeaders (hashes : List DomainHash) : Takes 0 (getHeaders context hashes) := by
  induction hashes with
  | nil => exact takes_pure _
  | cons hash hashes ih => exact (takes_call _).bind fun _ => ih.bind fun _ => takes_pure _

theorem takes_sendBatch (lowHash highHash : DomainHash) : Takes 1 (sendBatch context lowHash highHash) := by
  refine (takes_call _).then fun hashes => (takes_getHeaders context _).then fun headers => ?_
  refine (takes_send context _).then fun _ => takes_dequeue.bind fun message => ?_
  cases message with
  | requestHeaders lowHash highHash => exact takes_throw 0 _
  | requestNextHeaders =>
    cases hlast : hashes.1.getLast? with
    | none => simpa only [hlast] using takes_throw 0 _
    | some hash => simpa only [hlast] using takes_pure hash

theorem calm_getHeaders (hashes : List DomainHash) : Calm (getHeaders context hashes) := by
  induction hashes with
  | nil => exact spares_pure _
  | cons hash hashes ih => exact (calm_call _).bind fun _ => ih.bind fun _ => spares_pure _

theorem raises_acceptRequest_iff (s : Flow D) :
    Raises .panic (acceptRequest context) s ↔ s.incoming.head? = some .requestNextHeaders := by
  have hreceive : Raises .panic (receiveRequestHeaders : Run D E (DomainHash × DomainHash)) s ↔
      s.incoming.head? = some .requestNextHeaders := by
    unfold receiveRequestHeaders
    cases hincoming : s.incoming with
    | nil =>
      refine iff_of_false (fun hraises => ?_) nofun
      rw [Raises, exec_bind, exec_dequeue_nil hincoming] at hraises
      cases hraises
    | cons message incoming =>
      rw [raises_bind_ok (exec_dequeue_cons hincoming)]
      cases message with
      | requestHeaders lowHash highHash => exact iff_of_false not_raises_pure nofun
      | requestNextHeaders => exact iff_of_true rfl rfl
  unfold acceptRequest
  rw [raises_bind, hreceive, or_iff_left]
  rintro ⟨hashes, s', -, hraises⟩
  refine Spares.not_raises (?_ : Calm _) s' trivial hraises
  exact (calm_call _).bind fun _ => (calm_returnIf _ _ _).bind fun _ => (calm_call _).bind fun _ =>
    (calm_returnIf _ _ _).bind fun _ => (calm_call _).bind fun _ => (calm_returnIf _ _ _).bind fun _ => spares_pure _

def EmptyBatch (lowHash highHash : DomainHash) (s : Flow D) : Prop :=
  ∃ actualHigh s₁ s₂ s₃, exec (call (context.getHashesBetween lowHash highHash maxBlocks)) s = (.ok ([], actualHigh), s₁) ∧
    exec (send context (.blockHeaders [])) s₁ = (.ok (), s₂) ∧
    exec (dequeue : Run D E Message) s₂ = (.ok .requestNextHeaders, s₃)

variable (hsends : ∀ response d, (exec (context.enqueue response) d).1 ≠ .error .panic)
include hsends in
theorem raises_sendBatch_iff (lowHash highHash : DomainHash) (s : Flow D) :
    Raises .panic (sendBatch context lowHash highHash) s ↔ EmptyBatch context lowHash highHash s := by
  have hsend : ∀ response, Calm (send context response) := fun response =>
    ⟨fun s _ hraises => hsends response s.domain hraises, fun _ _ => trivial⟩
  unfold sendBatch EmptyBatch
  constructor
  · intro hraises
    obtain ⟨⟨hashes, actualHigh⟩, s₁, h₁, -, hraises⟩ := (calm_call _).raises_bind trivial hraises
    obtain ⟨headers, s₁', hheaders, -, hraises⟩ := (calm_getHeaders context hashes).raises_bind trivial hraises
    obtain ⟨_, s₂, h₂, -, hraises⟩ := (hsend _).raises_bind trivial hraises
    obtain ⟨message, s₃, h₃, -, hraises⟩ := calm_dequeue.raises_bind trivial hraises
    cases message with
    | requestHeaders lowHash highHash => cases hraises
    | requestNextHeaders =>
      cases hlast : hashes.getLast? with
      | some hash => simp only [hlast] at hraises; cases hraises
      | none =>
        obtain rfl := List.getLast?_eq_none_iff.mp hlast
        obtain ⟨hok, rfl⟩ := Prod.mk.inj hheaders
        cases hok
        exact ⟨actualHigh, s₁, s₂, s₃, h₁, h₂, h₃⟩
  · rintro ⟨actualHigh, s₁, s₂, s₃, h₁, h₂, h₃⟩
    rw [raises_bind_ok h₁, raises_bind_ok (show exec (getHeaders context []) s₁ = (.ok [], s₁) from rfl),
      raises_bind_ok h₂, raises_bind_ok h₃]
    rfl

/-! ## Runs -/

def Reaches (s : Flow D) (stage : Stage) (s' : Flow D) : Prop :=
  Relation.ReflTransGen (Round (step context)) (.waiting, s) (stage, s')

def rank (c : Stage × Flow D) : ℕ :=
  match c.1 with
  | .waiting => 2 * c.2.incoming.length
  | .serving _ _ => 2 * c.2.incoming.length + 1

theorem rank_lt_of_round (c c' : Stage × Flow D) (h : Round (step context) c c') : rank c' < rank c := by
  obtain ⟨stage, s⟩ := c
  obtain ⟨stage', s'⟩ := c'
  cases stage with
  | waiting =>
    obtain ⟨hashes, s₁, haccept, hpure⟩ := exec_bind_eq_ok h
    have htakes := takes_acceptRequest context s hashes s₁ haccept
    obtain ⟨hstage, rfl⟩ := Prod.mk.inj hpure
    obtain rfl : .serving hashes.1 hashes.2 = stage' := Except.ok.inj hstage
    simp only [rank]
    omega
  | serving lowHash highHash =>
    rw [Round, step_serving] at h
    split_ifs at h with heq
    · obtain ⟨_, s₁, hsend, hpure⟩ := exec_bind_eq_ok h
      have htakes := takes_send context _ s _ s₁ hsend
      obtain ⟨hstage, rfl⟩ := Prod.mk.inj hpure
      obtain rfl : Stage.waiting = stage' := Except.ok.inj hstage
      simp only [rank]
      omega
    obtain ⟨lowHash', s₁, hbatch, hpure⟩ := exec_bind_eq_ok h
    have htakes := takes_sendBatch context lowHash highHash s lowHash' s₁ hbatch
    obtain ⟨hstage, rfl⟩ := Prod.mk.inj hpure
    obtain rfl : Stage.serving lowHash' highHash = stage' := Except.ok.inj hstage
    simp only [rank]
    omega

/-- While it waits for a request, the flow takes a request for the next headers. -/
def TakesNextHeaders (s : Flow D) : Prop :=
  ∃ s', Reaches context s .waiting s' ∧ s'.incoming.head? = some .requestNextHeaders

/-- While it serves headers, the flow gets no hash above a low hash that is not the high hash. -/
def GetsEmptyBatch (s : Flow D) : Prop :=
  ∃ lowHash highHash s', Reaches context s (.serving lowHash highHash) s' ∧ lowHash ≠ highHash ∧
    EmptyBatch context lowHash highHash s'

theorem raises_step_waiting_iff (s : Flow D) :
    Raises .panic (step context .waiting) s ↔ s.incoming.head? = some .requestNextHeaders := by
  rw [← raises_acceptRequest_iff context]
  unfold step
  rw [raises_bind, or_iff_left]
  rintro ⟨hashes, s', -, hraises⟩
  exact not_raises_pure hraises

include hsends

theorem raises_step_serving_iff (lowHash highHash : DomainHash) (s : Flow D) :
    Raises .panic (step context (.serving lowHash highHash)) s ↔
      lowHash ≠ highHash ∧ EmptyBatch context lowHash highHash s := by
  rw [step_serving]
  split_ifs with heq
  · refine iff_of_false (fun hraises => ?_) fun h => h.1 heq
    rcases raises_bind.mp hraises with hraises | ⟨_, s', -, hraises⟩
    · exact hsends _ s.domain hraises
    · exact not_raises_pure hraises
  · rw [raises_bind, or_iff_left, raises_sendBatch_iff context hsends, and_iff_right heq]
    rintro ⟨_, s', -, hraises⟩
    exact not_raises_pure hraises

theorem raises_handleRequestHeaders_iff (s : Flow D) :
    Raises .panic (handleRequestHeaders context) s ↔ TakesNextHeaders context s ∨ GetsEmptyBatch context s := by
  have hiterate : Raises .panic (handleRequestHeaders context) s ↔
      Raises .panic (start context (2 * s.incoming.length + 1)) s := raises_bind_ok (exec_get s)
  rw [hiterate, start, raises_iterate_iff rank (rank_lt_of_round context)
    (show rank (Stage.waiting, s) < 2 * s.incoming.length + 1 from Nat.lt_succ_self _)]
  constructor
  · rintro ⟨⟨stage, s'⟩, hreach, hraises⟩
    cases stage with
    | waiting => exact .inl ⟨s', hreach, (raises_step_waiting_iff context s').mp hraises⟩
    | serving lowHash highHash =>
      obtain ⟨hne, hempty⟩ := (raises_step_serving_iff context hsends lowHash highHash s').mp hraises
      exact .inr ⟨lowHash, highHash, s', hreach, hne, hempty⟩
  · rintro (⟨s', hreach, hnext⟩ | ⟨lowHash, highHash, s', hreach, hne, hempty⟩)
    · exact ⟨_, hreach, (raises_step_waiting_iff context s').mpr hnext⟩
    · exact ⟨_, hreach, (raises_step_serving_iff context hsends lowHash highHash s').mpr ⟨hne, hempty⟩⟩

omit hsends

/-! ## A domain over a DAG -/

open Sync Traversal Ghostdag Lib.ParentChain

/-- The domain answers from the stores of a DAG. The configured limit of the merge sets is below `maxBlocks`. -/
structure OverDAG (m : Sync.Manager) (st : Stores) (rounds : ℕ) : Prop where
  tree : SelectedTree m.genesisHash st
  chains : m.ChainsCorrect st
  children : m.ChildrenCorrect st
  limit : ∀ hash sorted, getSortedMergeSet st hash = .ok sorted → sorted.length ≤ maxBlocks
  known : ∀ hash d d', exec (context.hasHeader hash) d = (.ok true, d') → Known st hash
  isInChain : ∀ lowHash highHash d d', exec (context.isInSelectedParentChainOf lowHash highHash) d = (.ok true, d') →
      m.isInSelectedParentChainOf lowHash highHash = true
  between : ∀ lowHash highHash d result d',
    exec (context.getHashesBetween lowHash highHash maxBlocks) d = (.ok result, d') →
      antiPastHashesBetween m st rounds lowHash highHash maxBlocks = .ok result

variable {context} {m : Sync.Manager} {st : Stores} {rounds : ℕ} {s s' : Flow D}

theorem exec_call_ok {p : Prog D E α} {a : α} (h : exec (call p) s = (.ok a, s')) :
    ∃ d', exec p s.domain = (.ok a, d') := by
  obtain ⟨hresult, -⟩ := Prod.mk.inj h
  cases hp : (exec p s.domain).1 with
  | error err => rw [hp] at hresult; cases hresult
  | ok b =>
    rw [hp] at hresult
    cases hresult
    exact ⟨_, Prod.ext hp rfl⟩

theorem exec_returnIf_ok {c : Bool} {err : FlowError E}
    (h : exec (returnIf c err) s = (.ok ⟨⟩, s')) : c = false := by
  cases c with
  | false => rfl
  | true => cases h

def OnSelectedChain (m : Sync.Manager) (st : Stores) : Stage → Prop
  | .waiting => True
  | .serving lowHash highHash =>
    Known st lowHash ∧ Known st highHash ∧ OnChain (chainParent st m.genesisHash) lowHash highHash

variable (h : OverDAG context m st rounds)
include h

theorem OverDAG.accept {hashes : DomainHash × DomainHash}
    (haccept : exec (acceptRequest context) s = (.ok hashes, s')) :
    OnSelectedChain m st (.serving hashes.1 hashes.2) := by
  obtain ⟨⟨low, high⟩, s₁, -, haccept⟩ := exec_bind_eq_ok haccept
  obtain ⟨lowHasHeader, s₂, hlow, haccept⟩ := exec_bind_eq_ok haccept
  obtain ⟨_, s₃, hreturn, haccept⟩ := exec_bind_eq_ok haccept
  obtain ⟨highHasHeader, s₄, hhigh, haccept⟩ := exec_bind_eq_ok haccept
  obtain ⟨_, s₅, hreturn', haccept⟩ := exec_bind_eq_ok haccept
  obtain ⟨isAncestor, s₆, hchain, haccept⟩ := exec_bind_eq_ok haccept
  obtain ⟨_, s₇, hreturn'', haccept⟩ := exec_bind_eq_ok haccept
  obtain rfl : (low, high) = hashes := Except.ok.inj (Prod.mk.inj haccept).1
  obtain rfl : lowHasHeader = true := by simpa using exec_returnIf_ok hreturn
  obtain rfl : highHasHeader = true := by simpa using exec_returnIf_ok hreturn'
  obtain rfl : isAncestor = true := by simpa using exec_returnIf_ok hreturn''
  obtain ⟨_, hlow⟩ := exec_call_ok hlow
  obtain ⟨_, hhigh⟩ := exec_call_ok hhigh
  obtain ⟨_, hchain⟩ := exec_call_ok hchain
  have hlow' := h.known low _ _ hlow
  have hhigh' := h.known high _ _ hhigh
  exact ⟨hlow', hhigh', (h.chains low high hlow' hhigh').mp (h.isInChain low high _ _ hchain)⟩

theorem OverDAG.batch {lowHash highHash next : DomainHash} (hne : lowHash ≠ highHash)
    (hon : OnSelectedChain m st (.serving lowHash highHash))
    (hbatch : exec (sendBatch context lowHash highHash) s = (.ok next, s')) :
    OnSelectedChain m st (.serving next highHash) := by
  obtain ⟨hlow, hhigh, hchain⟩ := hon
  obtain ⟨result, s₁, hhashes, hbatch⟩ := exec_bind_eq_ok hbatch
  obtain ⟨_, s₂, -, hbatch⟩ := exec_bind_eq_ok hbatch
  obtain ⟨_, s₃, -, hbatch⟩ := exec_bind_eq_ok hbatch
  obtain ⟨message, s₄, -, hbatch⟩ := exec_bind_eq_ok hbatch
  obtain ⟨_, hhashes⟩ := exec_call_ok hhashes
  obtain ⟨hlast, hactual⟩ := antiPastHashesBetween_last h.tree h.children h.chains h.limit hlow hhigh hchain hne
    (h.between lowHash highHash _ result _ hhashes)
  cases message with
  | requestHeaders low high => cases hbatch
  | requestNextHeaders =>
    simp only [hlast] at hbatch
    obtain rfl : result.2 = next := Except.ok.inj (Prod.mk.inj hbatch).1
    exact ⟨h.tree.known_of_onChain hactual hhigh, hhigh, hactual⟩

theorem OverDAG.round {c c' : Stage × Flow D} (hround : Round (step context) c c')
    (hon : OnSelectedChain m st c.1) : OnSelectedChain m st c'.1 := by
  obtain ⟨stage, s⟩ := c
  obtain ⟨stage', s'⟩ := c'
  cases stage with
  | waiting =>
    obtain ⟨hashes, s₁, haccept, hpure⟩ := exec_bind_eq_ok hround
    obtain rfl : .serving hashes.1 hashes.2 = stage' := Except.ok.inj (Prod.mk.inj hpure).1
    exact h.accept haccept
  | serving lowHash highHash =>
    rw [Round, step_serving] at hround
    split_ifs at hround with heq
    · obtain ⟨_, s₁, -, hpure⟩ := exec_bind_eq_ok hround
      obtain rfl : Stage.waiting = stage' := Except.ok.inj (Prod.mk.inj hpure).1
      trivial
    obtain ⟨next, s₁, hbatch, hpure⟩ := exec_bind_eq_ok hround
    obtain rfl : Stage.serving next highHash = stage' := Except.ok.inj (Prod.mk.inj hpure).1
    exact h.batch heq hon hbatch

theorem OverDAG.not_getsEmptyBatch (s : Flow D) : ¬GetsEmptyBatch context s := by
  rintro ⟨lowHash, highHash, s', hreach, hne, actualHigh, s₁, -, -, hhashes, -, -⟩
  have hon : ∀ c, Relation.ReflTransGen (Round (step context)) (.waiting, s) c → OnSelectedChain m st c.1 := by
    intro c hc
    induction hc with
    | refl => trivial
    | tail _ hround ih => exact h.round hround ih
  obtain ⟨hlow, hhigh, hchain⟩ := hon _ hreach
  obtain ⟨_, hhashes⟩ := exec_call_ok hhashes
  obtain ⟨hlast, -⟩ := antiPastHashesBetween_last h.tree h.children h.chains h.limit hlow hhigh hchain hne
    (h.between lowHash highHash _ _ _ hhashes)
  cases hlast

end

/-- The flow does not panic exactly if no request for a next batch comes while one for headers is awaited and no
batch is empty. -/
theorem handleRequestHeaders_panics_iff (context : Context D E Header)
    (hsends : ∀ response d, (exec (context.enqueue response) d).1 ≠ .error .panic) (s : Flow D) :
    ((exec (handleRequestHeaders context) s).1 ≠ .error .panic ↔
      ¬TakesNextHeaders context s ∧ ¬GetsEmptyBatch context s) ∧
    ∀ m st rounds, OverDAG context m st rounds → ¬GetsEmptyBatch context s := by
  refine ⟨?_, fun m st rounds hover => hover.not_getsEmptyBatch s⟩
  rw [← not_or]
  exact not_congr (raises_handleRequestHeaders_iff context hsends s)

/-! ## A small DAG -/

open Sync Traversal Ghostdag

def diamondContext : Context Unit Unit DomainHash where
  hasHeader hash := pure (decide (hash ∈ hashes diamond))
  isInSelectedParentChainOf lowHash highHash :=
    pure ((managerOver diamondManager diamond diamondStores 0).isInSelectedParentChainOf lowHash highHash)
  getHashesBetween lowHash highHash maxBlocks :=
    ofExcept ((antiPastHashesBetween (managerOver diamondManager diamond diamondStores 0) diamondStores 5 lowHash
      highHash maxBlocks).mapError fun _ => ())
  getBlockHeader := pure
  enqueue _ := pure ()

theorem overDAG_diamondContext :
    OverDAG diamondContext (managerOver diamondManager diamond diamondStores 0) diamondStores 5 := by
  obtain ⟨hdag, -⟩ := isDAG_of_checkDAG diamond_checkDAG
  have htree := selectedTree_of_recorded hdag diamond_recorded (by decide)
  have honly : ∀ hash, Known diamondStores hash → hash ∈ hashes diamond := fun hash ⟨d, hd⟩ =>
    diamond_recorded.only hash d hd
  refine ⟨htree, chainsCorrect_managerOf htree, childrenCorrect_managerOver htree honly 0, ?_, ?_, ?_, ?_⟩
  · intro hash sorted hsorted
    have hmem : hash ∈ hashes diamond := by
      obtain ⟨d, hd, -⟩ := bind_eq_ok.mp hsorted
      cases hlookup : diamondStores.data.lookup hash with
      | some d' => exact honly hash ⟨d', hlookup⟩
      | none =>
        have hget : diamondStores.get (some hash) false = .error (.notFound hash) := by
          simp only [Stores.get, lookupOrFail, Bool.false_eq_true, if_false, hlookup]
          rfl
        rw [hget] at hd
        cases hd
    have hall : ∀ hash ∈ hashes diamond, (getSortedMergeSet diamondStores hash).toOption.all (·.length ≤ maxBlocks) := by
      decide +kernel
    have hlength := hall hash hmem
    rw [hsorted] at hlength
    exact of_decide_eq_true hlength
  · intro hash d d' h
    have hmem := of_decide_eq_true (Except.ok.inj (Prod.mk.inj h).1)
    exact diamond_recorded.knows.data hash hmem
  · intro lowHash highHash d d' h
    exact Except.ok.inj (Prod.mk.inj h).1
  · intro lowHash highHash d result d' h
    change exec (ofExcept _) d = _ at h
    rw [exec_ofExcept] at h
    exact mapError_eq_ok.mp (Prod.mk.inj h).1

theorem handleRequestHeaders_panics_iff_diamond :
    (exec (handleRequestHeaders diamondContext) ⟨[.requestHeaders 1 4, .requestNextHeaders], ()⟩).1 =
        .error .errRouteClosed ∧ ¬TakesNextHeaders diamondContext ⟨[.requestHeaders 1 4, .requestNextHeaders], ()⟩ ∧
      ¬GetsEmptyBatch diamondContext ⟨[.requestHeaders 1 4, .requestNextHeaders], ()⟩ := by
  have hends : (exec (handleRequestHeaders diamondContext) ⟨[.requestHeaders 1 4, .requestNextHeaders], ()⟩).1 =
      .error .errRouteClosed := by decide +kernel
  obtain ⟨hiff, hbatches⟩ := handleRequestHeaders_panics_iff diamondContext (fun _ _ => nofun)
    ⟨[.requestHeaders 1 4, .requestNextHeaders], ()⟩
  have hnever := hbatches _ _ _ overDAG_diamondContext
  exact ⟨hends, (hiff.mp (by rw [hends]; exact nofun)).1, hnever⟩

theorem requestNextHeaders_first_panics :
    (exec (handleRequestHeaders diamondContext) ⟨[.requestNextHeaders], ()⟩).1 = .error .panic := rfl

end Kaspad.BlockRelay
