import Kaspad.IBD.HeadersProof

/-! # When the staging consensus is committed

The flow commits the staging consensus whenever no error occurred. That the pruning point UTXO set was not
received is no error.
-/

namespace Kaspad.IBD
open Lib Prog

variable {D H B W G α : Type} {context : Context D H B W G}

/-! ## Execution -/

theorem exec_call (convert : DomainError → FlowError) (m : Prog D DomainError α) (s : Flow D H B W G) :
    exec (call convert m) s = ((exec m s.domain).1.mapError convert, { s with domain := (exec m s.domain).2 }) := rfl

theorem exec_send (request : Request) (s : Flow D H B W G) :
    exec (send context request) s = ((exec (context.enqueue request) s.domain).1,
      { s with domain := (exec (context.enqueue request) s.domain).2 }) := rfl

theorem exec_outcome (m : Run D H B W G α)
    (s : Flow D H B W G) : exec (outcome m) s = (.ok (exec m s).1, (exec m s).2) := rfl

theorem exec_dequeueWithTimeout_nil {s : Flow D H B W G} (h : s.incoming = []) :
    exec dequeueWithTimeout s = (.error (.protocolError false .timeout), s) := by
  unfold dequeueWithTimeout
  rw [exec_bind, exec_get]
  simp only [h, exec_throw]

theorem exec_dequeueWithTimeout_cons {s : Flow D H B W G} {received : Except FlowError (Message H B W G)}
    {incoming : List (Except FlowError (Message H B W G))} (h : s.incoming = received :: incoming) :
    exec dequeueWithTimeout s = (received, { s with incoming := incoming }) := by
  unfold dequeueWithTimeout
  rw [exec_bind, exec_get]
  simp only [h, exec_bind, exec_set, exec_ofExcept]

/-! ## What does not touch the calls -/

section
variable {P : List Call → Prop}

abbrev KeepsCalls (P : List Call → Prop) (m : Run D H B W G α) : Prop :=
  Keeps (fun s => P s.calls) m

theorem keepsCalls_call (convert : DomainError → FlowError) (m : Prog D DomainError α) :
    KeepsCalls P (call convert m : Run D H B W G α) := fun _ h => h

theorem keepsCalls_send (request : Request) : KeepsCalls P (send context request) := fun _ h => h

theorem keepsCalls_outcome {m : Run D H B W G α} (h : KeepsCalls P m) : KeepsCalls P (outcome m) := h

theorem keepsCalls_dequeueWithTimeout : KeepsCalls P (dequeueWithTimeout : Run D H B W G _) := by
  intro s h
  cases hs : s.incoming with
  | nil => rwa [exec_dequeueWithTimeout_nil hs]
  | cons received incoming => rwa [exec_dequeueWithTimeout_cons hs]

theorem keeps_ite {c : Prop} [Decidable c] {σ ε : Type} {Q : σ → Prop} {m m' : Prog σ ε α} (h : Keeps Q m)
    (h' : Keeps Q m') : Keeps Q (if c then m else m') := by
  split_ifs
  · exact h
  · exact h'

theorem keepsCalls_returnIf (c : Bool) (err : FlowError) : KeepsCalls P (returnIf c err : Run D H B W G _) :=
  keeps_ite (keeps_throw _) (keeps_pure _)

theorem keepsCalls_sendIf (c : Bool) (request : Request) : KeepsCalls P (sendIf context c request) :=
  keeps_ite (keepsCalls_send _) (keeps_pure _)

theorem keepsCalls_elementsAt (l : List α) (indices : List ℕ) :
    KeepsCalls P (elementsAt l indices : Run D H B W G _) := by
  unfold elementsAt
  split
  · exact keeps_pure _
  · exact keeps_throw _

theorem keepsCalls_syncAndValidatePruningPointProof : KeepsCalls P (syncAndValidatePruningPointProof context) := by
  refine (keepsCalls_send _).bind fun _ => keepsCalls_dequeueWithTimeout.bind fun message => ?_
  split
  · refine (keepsCalls_call _ _).bind fun _ => (keepsCalls_call _ _).bind fun _ => ?_
    split
    · exact keeps_pure _
    · exact keeps_throw _
  · exact keeps_throw _

theorem keepsCalls_receivePruningPoints : KeepsCalls P (receivePruningPoints : Run D H B W G _) := by
  refine keepsCalls_dequeueWithTimeout.bind fun message => ?_
  split
  · exact keeps_pure _
  · exact keeps_throw _

variable (proofPruningPoint : DomainHash)

theorem keepsCalls_validateAndInsertPruningPoints :
    KeepsCalls P (validateAndInsertPruningPoints context proofPruningPoint) := by
  refine (keepsCalls_call _ _).bind fun _ => (keepsCalls_returnIf _ _).bind fun _ => ?_
  refine keepsCalls_receivePruningPoints.bind fun headers => (keepsCalls_call _ _).bind fun _ => ?_
  refine (keepsCalls_returnIf _ _).bind fun _ => ?_
  split
  · exact keeps_throw _
  · exact (keepsCalls_returnIf _ _).bind fun _ => keepsCalls_call _ _

theorem keepsCalls_receiveBlockWithTrustedData : KeepsCalls P (receiveBlockWithTrustedData : Run D H B W G _) := by
  refine keepsCalls_dequeueWithTimeout.bind fun message => ?_
  split
  · exact keeps_pure _
  · exact keeps_pure _
  · exact keeps_throw _

theorem keepsCalls_validateAndInsertBlockWithTrustedData (block : B) (daaWindow : List W) (ghostdagData : List G) :
    KeepsCalls P (validateAndInsertBlockWithTrustedData context block daaWindow ghostdagData) := by
  cases ghostdagData with
  | nil => exact keeps_throw _
  | cons data ghostdagData => exact keepsCalls_call _ _

theorem keepsCalls_processBlockWithTrustedData (block : B × List ℕ × List ℕ) (daaWindow : List W)
    (ghostdagData : List G) : KeepsCalls P (processBlockWithTrustedData context block daaWindow ghostdagData) :=
  (keepsCalls_elementsAt _ _).bind fun _ => (keepsCalls_elementsAt _ _).bind fun _ =>
    keepsCalls_validateAndInsertBlockWithTrustedData _ _ _

theorem keepsCalls_receiveAnticone (daaWindow : List W) (ghostdagData : List G) (messages i : ℕ) :
    KeepsCalls P (receiveAnticone context daaWindow ghostdagData messages i) := by
  induction messages generalizing i with
  | zero => exact keeps_throw _
  | succ messages ih =>
    refine keepsCalls_receiveBlockWithTrustedData.bind fun block => ?_
    split
    · exact keeps_pure _
    · exact (keepsCalls_processBlockWithTrustedData _ _ _).bind fun _ => (keepsCalls_sendIf _ _).bind fun _ => ih _

theorem keepsCalls_syncPruningPointsAndPruningPointAnticone :
    KeepsCalls P (syncPruningPointsAndPruningPointAnticone context proofPruningPoint) := by
  refine (keepsCalls_send _).bind fun _ => (keepsCalls_validateAndInsertPruningPoints _).bind fun _ => ?_
  refine keepsCalls_dequeueWithTimeout.bind fun message => ?_
  split
  · refine keepsCalls_receiveBlockWithTrustedData.bind fun block => ?_
    split
    · exact keeps_throw _
    refine (keepsCalls_returnIf _ _).bind fun _ => (keepsCalls_processBlockWithTrustedData _ _ _).bind fun _ => ?_
    exact keeps_get_bind fun flow _ => keepsCalls_receiveAnticone _ _ _ _
  · exact keeps_throw _

theorem keepsCalls_receiveHeaders : KeepsCalls P (receiveHeaders : Run D H B W G _) := by
  refine keepsCalls_dequeueWithTimeout.bind fun message => ?_
  split
  · exact keeps_pure _
  · exact keeps_pure _
  · exact keeps_throw _

theorem keepsCalls_processHeader (header : H) : KeepsCalls P (processHeader context header) := by
  refine (keepsCalls_call _ _).bind fun _ => keeps_ite (keeps_pure _) ?_
  refine (keepsCalls_outcome (keepsCalls_call _ _)).bind fun result => ?_
  split
  · exact keeps_pure _
  · exact keeps_pure _
  · exact keeps_throw _
  · exact keeps_throw _

variable (syncerHeaderSelectedTipHash relayBlockHash : DomainHash)

theorem keepsCalls_syncMissingRelayPast :
    KeepsCalls P (syncMissingRelayPast context syncerHeaderSelectedTipHash relayBlockHash) := by
  have hanticone : KeepsCalls P (syncAnticone context syncerHeaderSelectedTipHash relayBlockHash) := by
    refine (keepsCalls_send _).bind fun _ => keepsCalls_receiveHeaders.bind fun headers => ?_
    split
    · exact keeps_throw _
    refine keepsCalls_receiveHeaders.bind fun _ => (keepsCalls_returnIf _ _).bind fun _ => ?_
    exact keeps_forM fun header _ => keepsCalls_processHeader header
  refine (keepsCalls_call _ _).bind fun _ => keeps_ite ?_ (hanticone.bind fun _ => ?_)
  · exact (keepsCalls_call _ _).bind fun _ => keepsCalls_returnIf _ _
  · exact (keepsCalls_call _ _).bind fun _ => keepsCalls_returnIf _ _

theorem keepsCalls_receiveFutureHeaders (messages : ℕ) :
    KeepsCalls P (receiveFutureHeaders context syncerHeaderSelectedTipHash relayBlockHash messages) := by
  induction messages with
  | zero => exact keeps_throw _
  | succ messages ih =>
    refine keepsCalls_receiveHeaders.bind fun headers => ?_
    split
    · exact keepsCalls_syncMissingRelayPast _ _
    refine (keepsCalls_returnIf _ _).bind fun _ => (keepsCalls_send _).bind fun _ => ?_
    exact (keeps_forM fun header _ => keepsCalls_processHeader header).bind fun _ => ih

theorem keepsCalls_syncPruningPointFutureHeaders (highestKnownSyncerChainHash relayBlockHash : DomainHash) :
    KeepsCalls P (syncPruningPointFutureHeaders context syncerHeaderSelectedTipHash highestKnownSyncerChainHash
      relayBlockHash) := by
  refine keeps_ite (keepsCalls_syncMissingRelayPast _ _) ?_
  refine (keepsCalls_send _).bind fun _ => (keepsCalls_call _ _).bind fun _ => ?_
  exact keeps_get_bind fun flow _ => keepsCalls_receiveFutureHeaders _ _ _

theorem keepsCalls_selectedTipTimestamp (consensus : Consensus D H B W G) :
    KeepsCalls P (selectedTipTimestamp context consensus) :=
  (keepsCalls_call _ _).bind fun _ => (keepsCalls_call _ _).bind fun _ => keeps_pure _

theorem keepsCalls_downloadHeaders :
    KeepsCalls P (downloadHeaders context syncerHeaderSelectedTipHash relayBlockHash) := by
  refine keepsCalls_syncAndValidatePruningPointProof.bind fun proofPruningPoint => ?_
  refine (keepsCalls_syncPruningPointsAndPruningPointAnticone _).bind fun _ => ?_
  refine (keepsCalls_returnIf _ _).bind fun _ => (keepsCalls_syncPruningPointFutureHeaders _ _ _).bind fun _ => ?_
  refine (keepsCalls_call _ _).bind fun _ => (keepsCalls_returnIf _ _).bind fun _ => ?_
  refine Keeps.bind ?_ fun _ => keeps_pure _
  refine (keepsCalls_selectedTipTimestamp _).bind fun _ => (keepsCalls_selectedTipTimestamp _).bind fun _ => ?_
  exact (keepsCalls_returnIf _ _).bind fun _ => keepsCalls_returnIf _ _

theorem keepsCalls_receiveChunks (messages receivedChunkCount : ℕ) :
    KeepsCalls P (receiveChunks context messages receivedChunkCount) := by
  induction messages generalizing receivedChunkCount with
  | zero => exact keeps_throw _
  | succ messages ih =>
    refine keepsCalls_dequeueWithTimeout.bind fun message => ?_
    split
    · exact (keepsCalls_call _ _).bind fun _ => (keepsCalls_sendIf _ _).bind fun _ => ih _
    · exact keeps_pure _
    · exact keeps_pure _
    · exact keeps_throw _

end

/-! ## The answer to the request for the UTXO set -/

/-- Chunks, and then that the pruning point is not its own, or an end after which the import violates finality. -/
inductive Unserved (context : Context D H B W G) (pruningPoint : DomainHash) :
    ℕ → List (Except FlowError (Message H B W G)) → D → D → Prop
  | unexpectedPruningPoint (receivedChunkCount : ℕ) (rest) (d : D) :
    Unserved context pruningPoint receivedChunkCount (.ok .unexpectedPruningPoint :: rest) d d
  | violatesFinality (receivedChunkCount : ℕ) (rest) {d d' : D}
    (h : exec (context.stagingConsensus.validateAndInsertImportedPruningPoint pruningPoint) d =
      (.error .errSuggestedPruningViolatesFinality, d')) :
    Unserved context pruningPoint receivedChunkCount (.ok .donePruningPointUTXOSetChunks :: rest) d d'
  | chunk (receivedChunkCount : ℕ) {rest} {pairs : List (DomainOutpoint × UTXOEntry)} {d d₁ d₂ d' : D}
    (happend : exec (context.stagingConsensus.appendImportedPruningPointUTXOs pairs) d = (.ok (), d₁))
    (hsend : if (receivedChunkCount + 1) % ibdBatchSize = 0 then
      exec (context.enqueue .requestNextPruningPointUTXOSetChunk) d₁ = (.ok (), d₂) else d₂ = d₁)
    (hrest : Unserved context pruningPoint (receivedChunkCount + 1) rest d₂ d') :
    Unserved context pruningPoint receivedChunkCount (.ok (.pruningPointUTXOSetChunk pairs) :: rest) d d'

/-- The pruning point is valid, and its UTXO set is not served or violates finality, which is no error. -/
def Abandons (context : Context D H B W G) (pruningPoint : DomainHash) (s : Flow D H B W G) : Prop :=
  ∃ d₁ d₂ d₃ d₄, exec (context.stagingConsensus.isValidPruningPoint pruningPoint) s.domain = (.ok true, d₁) ∧
    exec (context.enqueue (.requestPruningPointUTXOSet pruningPoint)) d₁ = (.ok (), d₂) ∧
    Unserved context pruningPoint 0 s.incoming d₂ d₃ ∧
    exec context.stagingConsensus.clearImportedPruningPointData d₃ = (.ok (), d₄)

section
variable {pruningPoint : DomainHash} {s : Flow D H B W G}

theorem exec_insert_false : exec (insertImportedPruningPoint context pruningPoint false) s = (.ok false, s) := rfl

theorem exec_insert_true : exec (insertImportedPruningPoint context pruningPoint true) s =
    match exec (context.stagingConsensus.validateAndInsertImportedPruningPoint pruningPoint) s.domain with
    | (.ok _, d) => (.ok true, { s with domain := d, calls := s.calls ++ [.importedPruningPointInserted] })
    | (.error .errSuggestedPruningViolatesFinality, d) => (.ok false, { s with domain := d })
    | (.error err, d) =>
      (.error (convertToBanningProtocolErrorIfRuleError .pruningPointUTXOSet err), { s with domain := d }) := by
  unfold insertImportedPruningPoint
  rw [show (!true) = false from rfl]
  simp only [Bool.false_eq_true, if_false]
  rw [exec_bind, exec_outcome, exec_call]
  rcases exec (context.stagingConsensus.validateAndInsertImportedPruningPoint pruningPoint) s.domain with
    ⟨err | _, d⟩
  · cases err <;> rfl
  · rfl

/-- The flow returns `false` and leaves the domain `d'`. -/
def ReturnsFalse (m : Run D H B W G Bool) (s : Flow D H B W G) (d' : D) : Prop :=
  ∃ s', exec m s = (.ok false, s') ∧ s'.domain = d'

section
variable {s₁ : Flow D H B W G} {d' : D} {receivedChunkCount : ℕ} {a : α} {k : α → Run D H B W G Bool}
  {pairs : List (DomainOutpoint × UTXOEntry)} {rest : List (Except FlowError (Message H B W G))} {d : D}

theorem returnsFalse_bind_ok {m : Run D H B W G α} (h : exec m s = (.ok a, s₁)) :
    ReturnsFalse (m >>= k) s d' ↔ ReturnsFalse (k a) s₁ d' := by
  unfold ReturnsFalse
  rw [exec_bind_ok h]

theorem not_returnsFalse_bind {m : Run D H B W G α} {err : FlowError} (h : exec m s = (.error err, s₁)) :
    ¬ ReturnsFalse (m >>= k) s d' := by
  rintro ⟨s', hexec, -⟩
  rw [exec_bind, h] at hexec
  cases hexec

theorem returnsFalse_call {convert : DomainError → FlowError} {m : Prog D DomainError α} :
    ReturnsFalse (call convert m >>= k) s d' ↔
      ∃ a d, exec m s.domain = (.ok a, d) ∧ ReturnsFalse (k a) { s with domain := d } d' := by
  have hcall := exec_call convert m s
  rcases hm : exec m s.domain with ⟨err | a, d⟩ <;> rw [hm] at hcall
  · exact iff_of_false (not_returnsFalse_bind hcall) (by simp)
  · rw [returnsFalse_bind_ok hcall]
    simp

theorem returnsFalse_send {request : Request} {k : Run D H B W G Bool} :
    ReturnsFalse (send context request >>= fun _ => k) s d' ↔
      ∃ d, exec (context.enqueue request) s.domain = (.ok (), d) ∧ ReturnsFalse k { s with domain := d } d' := by
  have hsend : exec (send context request) s = _ := exec_send request s
  rcases henqueue : exec (context.enqueue request) s.domain with ⟨err | _, d⟩ <;> rw [henqueue] at hsend
  · exact iff_of_false (not_returnsFalse_bind hsend) (by simp)
  · rw [returnsFalse_bind_ok hsend]
    simp

theorem returnsFalse_sendIf {c : Bool} {request : Request} {k : Run D H B W G Bool} :
    ReturnsFalse (sendIf context c request >>= fun _ => k) s d' ↔
      ∃ d, (if c then exec (context.enqueue request) s.domain = (.ok (), d) else d = s.domain) ∧
        ReturnsFalse k { s with domain := d } d' := by
  cases c with
  | false => simp [sendIf]
  | true => exact returnsFalse_send

theorem returnsFalse_insert_true : ReturnsFalse (insertImportedPruningPoint context pruningPoint true) s d' ↔
    exec (context.stagingConsensus.validateAndInsertImportedPruningPoint pruningPoint) s.domain =
      (.error .errSuggestedPruningViolatesFinality, d') := by
  unfold ReturnsFalse
  rw [exec_insert_true]
  rcases exec (context.stagingConsensus.validateAndInsertImportedPruningPoint pruningPoint) s.domain with
    ⟨err | _, d⟩
  · cases err <;> simp
  · simp

theorem unserved_chunk_iff : Unserved context pruningPoint receivedChunkCount
      (.ok (.pruningPointUTXOSetChunk pairs) :: rest) d d' ↔
    ∃ d₁, exec (context.stagingConsensus.appendImportedPruningPointUTXOs pairs) d = (.ok (), d₁) ∧
      ∃ d₂, (if (receivedChunkCount + 1) % ibdBatchSize = 0 then
        exec (context.enqueue .requestNextPruningPointUTXOSetChunk) d₁ = (.ok (), d₂) else d₂ = d₁) ∧
      Unserved context pruningPoint (receivedChunkCount + 1) rest d₂ d' := by
  constructor
  · rintro (_ | _ | ⟨_, happend, hsend, hrest⟩)
    exact ⟨_, happend, _, hsend, hrest⟩
  · rintro ⟨d₁, happend, d₂, hsend, hrest⟩
    exact .chunk _ happend hsend hrest

end

/-- By induction on the messages that are left. -/
theorem receiveChunks_false_iff {messages receivedChunkCount : ℕ} (hlength : s.incoming.length = messages) (d' : D) :
    ReturnsFalse (receiveChunks context messages receivedChunkCount >>= insertImportedPruningPoint context pruningPoint)
      s d' ↔ Unserved context pruningPoint receivedChunkCount s.incoming s.domain d' := by
  induction messages generalizing s receivedChunkCount with
  | zero =>
    obtain ⟨incoming, d, calls⟩ := s
    obtain rfl : incoming = [] := List.length_eq_zero_iff.mp hlength
    exact iff_of_false (not_returnsFalse_bind rfl) (by rintro ⟨⟩)
  | succ messages ih =>
    obtain ⟨_ | ⟨received, incoming⟩, d, calls⟩ := s
    · cases hlength
    have hdequeue := exec_dequeueWithTimeout_cons (s := ⟨received :: incoming, d, calls⟩) rfl
    unfold receiveChunks
    rw [bind_assoc]
    cases received with
    | error err => exact iff_of_false (not_returnsFalse_bind hdequeue) (by rintro ⟨⟩)
    | ok message =>
      rw [returnsFalse_bind_ok hdequeue]
      cases message with
      | pruningPointUTXOSetChunk pairs =>
        dsimp only
        rw [unserved_chunk_iff, bind_assoc, returnsFalse_call]
        simp only [bind_assoc, returnsFalse_sendIf, decide_eq_true_eq]
        refine Unique.exists_iff.trans (exists_congr fun d₁ => and_congr_right fun _ => exists_congr fun d₂ =>
          and_congr_right fun _ => ?_)
        exact ih (s := ⟨incoming, d₂, calls⟩) (Nat.succ.inj hlength)
      | donePruningPointUTXOSetChunks =>
        dsimp only
        rw [pure_bind, returnsFalse_insert_true]
        constructor
        · exact fun h => .violatesFinality _ _ h
        · rintro (_ | ⟨_, _, h⟩ | _)
          exact h
      | unexpectedPruningPoint =>
        dsimp only
        rw [pure_bind]
        constructor
        · rintro ⟨s', h, rfl⟩
          cases h
          exact .unexpectedPruningPoint _ _ _
        · rintro (_ | _ | _)
          exact ⟨_, rfl, rfl⟩
      | _ => exact iff_of_false (not_returnsFalse_bind rfl) (by rintro ⟨⟩)

def fetchBody (context : Context D H B W G) (pruningPoint : DomainHash) : Run D H B W G Bool := do
  send context (.requestPruningPointUTXOSet pruningPoint)
  let receivedAll ← receiveAndInsertPruningPointUTXOSet context
  insertImportedPruningPoint context pruningPoint receivedAll

theorem fetchBody_false_iff (d' : D) : ReturnsFalse (fetchBody context pruningPoint) s d' ↔
    ∃ d, exec (context.enqueue (.requestPruningPointUTXOSet pruningPoint)) s.domain = (.ok (), d) ∧
      Unserved context pruningPoint 0 s.incoming d d' := by
  unfold fetchBody receiveAndInsertPruningPointUTXOSet
  rw [returnsFalse_send]
  refine exists_congr fun d => and_congr_right fun _ => ?_
  rw [bind_assoc, returnsFalse_bind_ok (exec_get _)]
  exact receiveChunks_false_iff (s := { s with domain := d }) rfl d'

variable {inserted : Bool} {s' : Flow D H B W G}

theorem insertImportedPruningPoint_calls {receivedAll : Bool}
    (h : exec (insertImportedPruningPoint context pruningPoint receivedAll) s = (.ok inserted, s')) :
    s'.calls = if inserted then s.calls ++ [.importedPruningPointInserted] else s.calls := by
  cases receivedAll with
  | false =>
    rw [exec_insert_false] at h
    obtain ⟨hok, rfl⟩ := Prod.mk.inj h
    cases hok
    rfl
  | true =>
    rw [exec_insert_true] at h
    rcases hvalidate : exec (context.stagingConsensus.validateAndInsertImportedPruningPoint pruningPoint) s.domain with
      ⟨err | _, d⟩
    · rw [hvalidate] at h
      cases err with
      | errSuggestedPruningViolatesFinality =>
        obtain ⟨hok, rfl⟩ := Prod.mk.inj h
        cases hok
        rfl
      | _ => cases h
    · rw [hvalidate] at h
      obtain ⟨hok, rfl⟩ := Prod.mk.inj h
      cases hok
      rfl

variable {P : List Call → Prop}
    (hP : ∀ calls, P calls → P (calls ++ [.importedPruningPointInserted]))

include hP

theorem keepsCalls_insertImportedPruningPoint (receivedAll : Bool) :
    KeepsCalls P (insertImportedPruningPoint context pruningPoint receivedAll) := by
  refine keeps_ite (keeps_pure _) ?_
  refine (keepsCalls_outcome (keepsCalls_call _ _)).bind fun result => ?_
  split
  · exact Keeps.bind (keeps_modify fun s => hP s.calls) fun _ => keeps_pure _
  · exact keeps_pure _
  · exact keeps_throw _
  · exact keeps_throw _

theorem keepsCalls_fetchBody : KeepsCalls P (fetchBody context pruningPoint) := by
  refine (keepsCalls_send _).bind fun _ => Keeps.bind ?_ fun _ => keepsCalls_insertImportedPruningPoint hP _
  exact keeps_get_bind fun flow _ => keepsCalls_receiveChunks _ _

omit hP

theorem fetchBody_calls (h : exec (fetchBody context pruningPoint) s = (.ok inserted, s')) :
    s'.calls = if inserted then s.calls ++ [.importedPruningPointInserted] else s.calls := by
  obtain ⟨_, s₁, hsend, h⟩ := exec_bind_eq_ok h
  obtain ⟨receivedAll, s₂, hreceive, h⟩ := exec_bind_eq_ok h
  have hcalls : s₂.calls = s.calls := by
    have hsame : KeepsCalls (· = s.calls) (receiveAndInsertPruningPointUTXOSet context) :=
      keeps_get_bind fun flow _ => keepsCalls_receiveChunks (P := (· = s.calls)) _ _
    exact hsame.of_exec ((keepsCalls_send (P := (· = s.calls)) _).of_exec rfl hsend) hreceive
  rw [← hcalls]
  exact insertImportedPruningPoint_calls h

theorem exec_fetchMissingUTXOSet : exec (fetchMissingUTXOSet context pruningPoint) s =
    match exec context.stagingConsensus.clearImportedPruningPointData (exec (fetchBody context pruningPoint) s).2.domain with
    | (.ok _, d) => ((exec (fetchBody context pruningPoint) s).1,
      { (exec (fetchBody context pruningPoint) s).2 with domain := d })
    | (.error _, d) => (.error .panic, { (exec (fetchBody context pruningPoint) s).2 with domain := d }) := by
  change exec (outcome (fetchBody context pruningPoint) >>= _) s = _
  rw [exec_bind, exec_outcome]
  dsimp only
  rw [exec_bind, exec_call]
  rcases exec context.stagingConsensus.clearImportedPruningPointData
    (exec (fetchBody context pruningPoint) s).2.domain with ⟨err | _, d⟩
  · rfl
  · exact exec_ofExcept _ _

theorem syncPruningPointUTXOSet_false_iff :
    (∃ s', exec (syncPruningPointUTXOSet context pruningPoint) s = (.ok false, s')) ↔ Abandons context pruningPoint s := by
  unfold syncPruningPointUTXOSet Abandons
  rw [exec_bind, exec_call]
  rcases hvalid : exec (context.stagingConsensus.isValidPruningPoint pruningPoint) s.domain with ⟨err | isValid, d₁⟩
  · constructor
    · rintro ⟨s', h⟩
      cases h
    rintro ⟨_, _, _, _, h, -⟩
    cases h
  cases isValid with
  | false =>
    constructor
    · rintro ⟨s', h⟩
      cases h
    rintro ⟨_, _, _, _, h, -⟩
    cases h
  | true =>
    change (∃ s', exec (fetchMissingUTXOSet context pruningPoint) { s with domain := d₁ } = (.ok false, s')) ↔ _
    rw [exec_fetchMissingUTXOSet]
    constructor
    · rintro ⟨s', h⟩
      rcases hclear : exec context.stagingConsensus.clearImportedPruningPointData
        (exec (fetchBody context pruningPoint) { s with domain := d₁ }).2.domain with ⟨err | _, d₄⟩
      · rw [hclear] at h
        cases h
      rw [hclear] at h
      have hbody : exec (fetchBody context pruningPoint) { s with domain := d₁ } = (.ok false, _) :=
        Prod.ext (Prod.mk.inj h).1 rfl
      obtain ⟨d₂, hsend, hunserved⟩ := (fetchBody_false_iff _).mp ⟨_, hbody, rfl⟩
      exact ⟨d₁, d₂, _, d₄, rfl, hsend, hunserved, hclear⟩
    · rintro ⟨d₁', d₂, d₃, d₄, hvalid', hsend, hunserved, hclear⟩
      cases hvalid'
      obtain ⟨s₃, hbody, rfl⟩ := (fetchBody_false_iff (s := { s with domain := d₁ }) d₃).mpr ⟨d₂, hsend, hunserved⟩
      rw [hbody, hclear]
      exact ⟨_, rfl⟩

include hP in
theorem keepsCalls_syncPruningPointUTXOSet : KeepsCalls P (syncPruningPointUTXOSet context pruningPoint) := by
  refine (keepsCalls_call _ _).bind fun _ => (keepsCalls_returnIf _ _).bind fun _ => ?_
  refine Keeps.bind (keepsCalls_outcome (keepsCalls_fetchBody hP)) fun result => ?_
  refine (keepsCalls_call _ _).bind fun _ s h => ?_
  rwa [exec_ofExcept]

theorem syncPruningPointUTXOSet_calls
    (h : exec (syncPruningPointUTXOSet context pruningPoint) s = (.ok inserted, s')) :
    s'.calls = if inserted then s.calls ++ [.importedPruningPointInserted] else s.calls := by
  obtain ⟨isValid, s₁, hvalid, h⟩ := exec_bind_eq_ok h
  obtain ⟨_, s₂, hreturn, h⟩ := exec_bind_eq_ok h
  have hcalls : s₂.calls = s.calls := (keepsCalls_returnIf (P := (· = s.calls)) _ _).of_exec
    ((keepsCalls_call (P := (· = s.calls)) _ _).of_exec rfl hvalid) hreturn
  rw [exec_fetchMissingUTXOSet] at h
  rcases hclear : exec context.stagingConsensus.clearImportedPruningPointData
    (exec (fetchBody context pruningPoint) s₂).2.domain with ⟨err | _, d⟩
  · rw [hclear] at h
    cases h
  rw [hclear] at h
  obtain ⟨hbody, rfl⟩ := Prod.mk.inj h
  have hbody' : exec (fetchBody context pruningPoint) s₂ =
      (.ok inserted, (exec (fetchBody context pruningPoint) s₂).2) := Prod.ext hbody rfl
  have hbodyCalls := fetchBody_calls hbody'
  rwa [hcalls] at hbodyCalls

/-! ## The commit -/

/-- The staging consensus is committed only after the pruning point UTXO set was inserted. -/
def CommitsOnlyImported (calls : List Call) : Prop :=
  ∀ before after, calls = before ++ .commitStagingConsensus :: after → .importedPruningPointInserted ∈ before

theorem commitsOnlyImported_of_notMem {calls : List Call} (h : .commitStagingConsensus ∉ calls) :
    CommitsOnlyImported calls := by
  rintro before after rfl
  exact absurd (by simp) h

end

def afterDownload (context : Context D H B W G) :
    Except FlowError Unit → Run D H B W G Unit
  | .error err => do
    if isRecoverableError err then call .domainError context.deleteStagingConsensus else pure ()
    throw err
  | .ok _ => do
    record .commitStagingConsensus
    call .domainError context.commitStagingConsensus
    call .domainError context.onPruningPointUTXOSetOverride

theorem keepsCalls_afterDownload_error {P : List Call → Prop} (err : FlowError) :
    KeepsCalls P (afterDownload context (.error err)) :=
  keeps_ite ((keepsCalls_call _ _).bind fun _ => keeps_throw _) (keeps_throw _)

theorem calls_afterDownload_ok (s : Flow D H B W G) :
    (exec (afterDownload context (.ok ())) s).2.calls = s.calls ++ [.commitStagingConsensus] := by
  have hrecord : exec (record .commitStagingConsensus) s =
      (.ok ⟨⟩, { s with calls := s.calls ++ [.commitStagingConsensus] }) := rfl
  unfold afterDownload
  rw [exec_bind, hrecord]
  refine (?_ : KeepsCalls (· = s.calls ++ [.commitStagingConsensus]) _) { s with calls := _ } rfl
  exact Keeps.bind (fun _ h => h) fun _ _ h => h

/-- The staging consensus is committed only with its UTXO set exactly if the peer serves it. -/
theorem commitsOnlyImported_iff (context : Context D H B W G) (syncerHeaderSelectedTipHash relayBlockHash : DomainHash)
    (incoming : List (Except FlowError (Message H B W G))) (domain : D) : CommitsOnlyImported
      (exec (ibdWithHeadersProof context syncerHeaderSelectedTipHash relayBlockHash) ⟨incoming, domain, []⟩).2.calls ↔
      ∀ d s' pruningPoint, exec context.initStagingConsensusWithoutGenesis domain = (.ok (), d) →
        exec (downloadHeaders context syncerHeaderSelectedTipHash relayBlockHash) ⟨incoming, d, []⟩ =
          (.ok pruningPoint, s') → ¬ Abandons context pruningPoint s' := by
  have hrun : ∀ s, exec (ibdWithHeadersProof context syncerHeaderSelectedTipHash relayBlockHash) s =
      exec (call .domainError context.initStagingConsensusWithoutGenesis >>= fun _ => outcome
        (downloadHeadersAndPruningUTXOSet context syncerHeaderSelectedTipHash relayBlockHash) >>=
          afterDownload context) s := by
    intro s
    congr 3
  rw [hrun, exec_bind, exec_call]
  rcases hinit : exec context.initStagingConsensusWithoutGenesis domain with ⟨err | _, d⟩
  · refine iff_of_true (commitsOnlyImported_of_notMem ?_) ?_
    · simp [Except.mapError]
    rintro d' s' pruningPoint h
    cases h
  simp only [Except.mapError]
  rw [exec_bind, exec_outcome]
  unfold downloadHeadersAndPruningUTXOSet
  rw [exec_bind]
  rcases hheaders : exec (downloadHeaders context syncerHeaderSelectedTipHash relayBlockHash) ⟨incoming, d, []⟩ with
    ⟨err | pruningPoint, s₁⟩
  · refine iff_of_true (commitsOnlyImported_of_notMem ?_) ?_
    · have hcalls := (keepsCalls_downloadHeaders (P := (· = [])) _ _).of_exec (s := ⟨incoming, d, []⟩) rfl hheaders
      exact keepsCalls_afterDownload_error (P := (.commitStagingConsensus ∉ ·)) _ s₁ (by simp [hcalls])
    rintro d' s' pruningPoint h h'
    cases h
    rw [hheaders] at h'
    cases h'
  have hcalls := (keepsCalls_downloadHeaders (P := (· = [])) _ _).of_exec (s := ⟨incoming, d, []⟩) rfl hheaders
  have hcondition : (∀ d' s' pruningPoint', (.ok (), d) = ((.ok (), d') : Except DomainError Unit × D) →
      exec (downloadHeaders context syncerHeaderSelectedTipHash relayBlockHash) ⟨incoming, d', []⟩ =
        (.ok pruningPoint', s') → ¬ Abandons context pruningPoint' s') ↔ ¬ Abandons context pruningPoint s₁ := by
    constructor
    · exact fun h => h d s₁ pruningPoint rfl hheaders
    rintro h d' s' pruningPoint' hd h'
    cases hd
    obtain ⟨hok, rfl⟩ := Prod.mk.inj (hheaders.symm.trans h')
    cases hok
    exact h
  rw [hcondition, ← syncPruningPointUTXOSet_false_iff]
  dsimp only
  rw [exec_bind]
  rcases hsync : exec (syncPruningPointUTXOSet context pruningPoint) s₁ with ⟨err | inserted, s₂⟩
  · refine iff_of_true (commitsOnlyImported_of_notMem ?_) ?_
    · refine keepsCalls_afterDownload_error (P := (.commitStagingConsensus ∉ ·)) _ _ ?_
      exact (keepsCalls_syncPruningPointUTXOSet (P := (.commitStagingConsensus ∉ ·))
        (fun calls h => by simpa using h)).of_exec (by simp [hcalls]) hsync
    · rintro ⟨s', h⟩
      cases h
  have hcalls₂ := syncPruningPointUTXOSet_calls hsync
  rw [hcalls, List.nil_append] at hcalls₂
  have hfinal : (exec (afterDownload context (.ok ())) s₂).2.calls = s₂.calls ++ [.commitStagingConsensus] :=
    calls_afterDownload_ok s₂
  change CommitsOnlyImported (exec (afterDownload context (.ok ())) s₂).2.calls ↔ _
  rw [hfinal, hcalls₂]
  cases inserted with
  | true =>
    refine iff_of_true ?_ ?_
    · intro before after heq
      rcases before with _ | ⟨first, before⟩
      · cases heq
      obtain ⟨rfl, -⟩ := List.cons.inj heq
      simp
    · rintro ⟨s', h⟩
      cases h
  | false =>
    refine iff_of_false (fun h => ?_) fun h => h ⟨s₂, rfl⟩
    exact absurd (h [] [] rfl) (by simp)

/-! ## A peer that gives up -/

def sampleConsensus (tip : ℕ) : Consensus Unit ℕ ℕ Unit Unit where
  validatePruningPointProof _ := pure ()
  applyPruningPointProof _ := pure ()
  pruningPoint := pure 1
  arePruningPointsViolatingFinality _ := pure false
  importPruningPoints _ := pure ()
  insertBlockWithTrustedData _ _ _ := pure ()
  blockExists _ := pure true
  validateAndInsertHeader _ := pure ()
  getHeadersSelectedTip := pure tip
  getBlockHeader _ := pure tip
  isValidPruningPoint _ := pure true
  appendImportedPruningPointUTXOs _ := pure ()
  clearImportedPruningPointData := pure ()
  validateAndInsertImportedPruningPoint _ := pure ()

def sampleContext : Context Unit ℕ ℕ Unit Unit where
  consensus := sampleConsensus 0
  stagingConsensus := sampleConsensus 1000000
  initStagingConsensusWithoutGenesis := pure ()
  commitStagingConsensus := pure ()
  deleteStagingConsensus := pure ()
  onPruningPointUTXOSetOverride := pure ()
  enqueue _ := pure ()
  genesisHash := 0
  headerHash := id
  timeInMilliseconds := Int.ofNat
  blockHash := id

def sampleMessages : List (Except FlowError (Message ℕ ℕ Unit Unit)) :=
  [.ok (.pruningPointProof [[7]]), .ok (.pruningPoints [7]), .ok (.trustedData [] [()]),
    .ok (.blockWithTrustedDataV4 7 [] [0]), .ok .doneBlocksWithTrustedData]

/-- The peer answers that the pruning point is not its own, and the staging consensus is committed. -/
theorem commits_after_unexpectedPruningPoint :
    (exec (ibdWithHeadersProof sampleContext 7 9) ⟨sampleMessages ++ [.ok .unexpectedPruningPoint], (), []⟩).2.calls =
      [.commitStagingConsensus] := by
  decide +kernel

example : (exec (ibdWithHeadersProof sampleContext 7 9)
    ⟨sampleMessages ++ [.ok .donePruningPointUTXOSetChunks], (), []⟩).2.calls =
      [.importedPruningPointInserted, .commitStagingConsensus] := by
  decide +kernel

end Kaspad.IBD
