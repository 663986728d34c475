import Kaspad.IBD.Commit

/-! # Indices into the trusted data

The blocks of the anticone of the pruning point refer by index to lists of an earlier message, and
`processBlockWithTrustedData` indexes the lists with what the peer sent. The block processor then reads the first of
the GHOSTDAG data that it was given, whether or not there is one. The headers of the pruning points are
indexed only after `ArePruningPointsViolatingFinality`, which takes an empty list for a violation.
-/

namespace Kaspad.IBD
open Lib Prog List

variable {D H B W G α : Type}

/-! ## The pruning points and finality -/

/-- What `ArePruningPointsViolatingFinality` reads. -/
structure FinalityReads (D : Type) where
  virtualFinalityPoint : Prog D DomainError DomainHash
  finalityPoint : DomainHash → Prog D DomainError DomainHash
  blockStatusExists : DomainHash → Prog D DomainError Bool
  isInSelectedParentChainOf : DomainHash → DomainHash → Prog D DomainError Bool

section
variable (reads : FinalityReads D) (headerHash : H → DomainHash)

def violatesAt (virtualFinalityPointFinalityPoint : DomainHash) : List H → Prog D DomainError Bool
  | [] => pure true
  | header :: headers => do
    if ← reads.blockStatusExists (headerHash header) then
      let isInSelectedParentChain ←
        reads.isInSelectedParentChainOf virtualFinalityPointFinalityPoint (headerHash header)
      pure !isInSelectedParentChain
    else violatesAt virtualFinalityPointFinalityPoint headers

def arePruningPointsViolatingFinality (pruningPoints : List H) : Prog D DomainError Bool := do
  let virtualFinalityPoint ← reads.virtualFinalityPoint
  let virtualFinalityPointFinalityPoint ← reads.finalityPoint virtualFinalityPoint
  violatesAt reads headerHash virtualFinalityPointFinalityPoint pruningPoints.reverse

theorem violating_of_nil {d d' : D} {violating : Bool}
    (h : exec (arePruningPointsViolatingFinality reads headerHash []) d = (.ok violating, d')) : violating = true := by
  obtain ⟨_, d₁, -, h⟩ := exec_bind_eq_ok h
  obtain ⟨_, d₂, -, h⟩ := exec_bind_eq_ok h
  exact (Except.ok.inj (Prod.mk.inj h).1).symm

end

/-! ## Panics -/

variable {context : Context D H B W G} {s s' : Flow D H B W G}

/-- The route delivers no panic. -/
def Quiet (s : Flow D H B W G) : Prop := .error .panic ∉ s.incoming

abbrev Calm (m : Run D H B W G α) : Prop := Spares .panic Quiet m

theorem calm_call {convert : DomainError → FlowError} (hconvert : ∀ err, convert err ≠ .panic)
    (m : Prog D DomainError α) : Calm (call convert m : Run D H B W G α) :=
  spares_zoomError hconvert (by exact fun _ _ h => h) m

theorem calm_call_domainError (m : Prog D DomainError α) : Calm (call .domainError m : Run D H B W G α) :=
  calm_call (fun _ h => by cases h) m

theorem calm_returnIf (c shouldBan : Bool) (reason : Reason) :
    Calm (returnIf c (.protocolError shouldBan reason) : Run D H B W G PUnit) := spares_returnIf c nofun

theorem calm_dequeueWithTimeout : Calm (dequeueWithTimeout : Run D H B W G (Message H B W G)) := by
  have hexec : ∀ s : Flow D H B W G, Quiet s →
      (exec dequeueWithTimeout s).1 ≠ .error .panic ∧ Quiet (exec dequeueWithTimeout s).2 := by
    intro s hs
    cases hincoming : s.incoming with
    | nil =>
      rw [exec_dequeueWithTimeout_nil hincoming]
      exact ⟨nofun, hs⟩
    | cons received incoming =>
      have hquiet : .error .panic ∉ received :: incoming := hincoming ▸ hs
      rw [exec_dequeueWithTimeout_cons hincoming]
      exact ⟨fun h => hquiet (h ▸ mem_cons_self), fun h => hquiet (mem_cons_of_mem _ h)⟩
  exact ⟨fun s hs => (hexec s hs).1, fun s hs => (hexec s hs).2⟩

def Sends (context : Context D H B W G) : Prop :=
  ∀ request d, (exec (context.enqueue request) d).1 ≠ .error .panic

theorem calm_send (hsends : Sends context) (request : Request) : Calm (send context request) :=
  ⟨fun s _ hpanics => hsends request s.domain hpanics, fun _ h => h⟩

theorem calm_sendIf (hsends : Sends context) (c : Bool) (request : Request) : Calm (sendIf context c request) := by
  unfold sendIf
  split_ifs
  · exact calm_send hsends request
  · exact spares_pure _

theorem calm_receivePruningPoints : Calm (receivePruningPoints : Run D H B W G (List H)) := by
  refine calm_dequeueWithTimeout.bind fun message => ?_
  cases message with
  | pruningPoints headers => exact spares_pure headers
  | _ => exact spares_throw nofun

theorem calm_receiveBlockWithTrustedData : Calm (receiveBlockWithTrustedData :
      Run D H B W G (Option (B × List ℕ × List ℕ))) := by
  refine calm_dequeueWithTimeout.bind fun message => ?_
  cases message with
  | blockWithTrustedDataV4 block daaWindowIndices ghostdagDataIndices => exact spares_pure _
  | doneBlocksWithTrustedData => exact spares_pure _
  | _ => exact spares_throw nofun

theorem calm_validateAndInsertPruningPoints {reads : FinalityReads D}
    (hreads : context.consensus.arePruningPointsViolatingFinality =
      arePruningPointsViolatingFinality reads context.headerHash) (proofPruningPoint : DomainHash) :
    Calm (validateAndInsertPruningPoints context proofPruningPoint) := by
  refine (calm_call_domainError _).bind fun currentPruningPoint => ?_
  refine (calm_returnIf _ _ _).bind fun _ => calm_receivePruningPoints.bind fun headers => ?_
  cases hlast : headers.getLast? with
  | some header =>
    refine (calm_call_domainError _).bind fun violating => (calm_returnIf _ _ _).bind fun _ => ?_
    exact (calm_returnIf _ _ _).bind fun _ => calm_call_domainError _
  | none =>
    obtain rfl := List.getLast?_eq_none_iff.mp hlast
    have hcall : Calm (call .domainError (context.consensus.arePruningPointsViolatingFinality []) :
        Run D H B W G Bool) := calm_call_domainError _
    refine ⟨fun s hs hpanics => ?_, hcall.keeps.bind fun _ => (calm_returnIf _ _ _).keeps.bind fun _ => keeps_throw _⟩
    obtain ⟨violating, s', hexec, -, hpanics⟩ := hcall.raises_bind hs hpanics
    -- An empty list is a violation, so the flow ends before it indexes the list.
    have hviolating : violating = true := by
      rw [exec_call, hreads] at hexec
      obtain ⟨hresult, -⟩ := Prod.mk.inj hexec
      cases hviolates : (exec (arePruningPointsViolatingFinality reads context.headerHash []) s.domain).1 with
      | error err => rw [hviolates] at hresult; cases hresult
      | ok b =>
        rw [hviolates] at hresult
        cases hresult
        exact violating_of_nil reads context.headerHash (Prod.ext hviolates rfl)
    subst hviolating
    cases hpanics

/-! ## The blocks -/

/-- An index of the block is beyond its list, or the block has no index of GHOSTDAG data. -/
def OutOfRange (daaWindow : List W) (ghostdagData : List G) (block : B × List ℕ × List ℕ) : Prop :=
  (∃ i ∈ block.2.1, daaWindow.length ≤ i) ∨ (∃ i ∈ block.2.2, ghostdagData.length ≤ i) ∨ block.2.2 = []

theorem mapM_getElem?_eq_none_iff (l : List α) (indices : List ℕ) :
    indices.mapM (l[·]?) = none ↔ ∃ i ∈ indices, l.length ≤ i := by
  induction indices with
  | nil => simp
  | cons i indices ih =>
    rw [mapM_cons]
    cases hi : l[i]? with
    | none => simp [List.getElem?_eq_none_iff.mp hi]
    | some a =>
      have hlt : ¬l.length ≤ i := fun hle => by
        rw [List.getElem?_eq_none_iff.mpr hle] at hi
        cases hi
      cases hrest : indices.mapM (l[·]?) with
      | none => simp [ih.mp hrest, hlt]
      | some rest =>
        have hnone := mt ih.mpr (by simp [hrest])
        simp [hlt, hnone]

theorem exec_elementsAt (l : List α) (indices : List ℕ) (s : Flow D H B W G) :
    (∃ i ∈ indices, l.length ≤ i) ∧ exec (elementsAt l indices) s = (.error .panic, s) ∨
      (¬∃ i ∈ indices, l.length ≤ i) ∧
        ∃ elements, exec (elementsAt l indices) s = (.ok elements, s) ∧ (elements = [] ↔ indices = []) := by
  rw [← mapM_getElem?_eq_none_iff]
  unfold elementsAt
  cases helements : indices.mapM (l[·]?) with
  | none => exact .inl ⟨rfl, rfl⟩
  | some elements =>
    refine .inr ⟨nofun, elements, rfl, ?_⟩
    cases indices with
    | nil => cases helements; exact iff_of_true rfl rfl
    | cons i indices =>
      rw [mapM_cons] at helements
      obtain ⟨a, -, helements⟩ := Option.bind_eq_some_iff.mp helements
      obtain ⟨rest, -, helements⟩ := Option.bind_eq_some_iff.mp helements
      cases helements
      exact iff_of_false nofun nofun

section
variable {daaWindow : List W} {ghostdagData : List G} {block : B × List ℕ × List ℕ}

theorem panics_processBlockWithTrustedData_iff (hs : Quiet s) :
    Raises .panic (processBlockWithTrustedData context block daaWindow ghostdagData) s ↔
      OutOfRange daaWindow ghostdagData block := by
  unfold processBlockWithTrustedData OutOfRange
  rcases exec_elementsAt daaWindow block.2.1 s with ⟨hwindow, hexec⟩ | ⟨hwindow, window, hexec, -⟩
  · exact iff_of_true (raises_bind.mpr (.inl (congrArg Prod.fst hexec))) (.inl hwindow)
  rw [or_iff_right hwindow, raises_bind_ok hexec]
  rcases exec_elementsAt ghostdagData block.2.2 s with ⟨hdata, hexec'⟩ | ⟨hdata, data, hexec', hnil⟩
  · exact iff_of_true (raises_bind.mpr (.inl (congrArg Prod.fst hexec'))) (.inl hdata)
  rw [or_iff_right hdata, raises_bind_ok hexec', ← hnil]
  cases data with
  | nil => exact iff_of_true rfl rfl
  | cons first data =>
    refine iff_of_false ((calm_call (fun err => ?_) _).not_raises s hs) nofun
    unfold convertToBanningProtocolErrorIfRuleError
    split_ifs <;> exact nofun

theorem incoming_processBlockWithTrustedData (context : Context D H B W G)
    (block : B × List ℕ × List ℕ) (daaWindow : List W) (ghostdagData : List G) (s : Flow D H B W G) :
    (exec (processBlockWithTrustedData context block daaWindow ghostdagData) s).2.incoming = s.incoming := by
  unfold processBlockWithTrustedData
  rcases exec_elementsAt daaWindow block.2.1 s with ⟨-, hexec⟩ | ⟨-, window, hexec, -⟩
  · rw [exec_bind, hexec]
  rw [exec_bind_ok hexec]
  rcases exec_elementsAt ghostdagData block.2.2 s with ⟨-, hexec'⟩ | ⟨-, data, hexec', -⟩
  · rw [exec_bind, hexec']
  rw [exec_bind_ok hexec']
  cases data <;> rfl

theorem incoming_receiveBlockWithTrustedData {received : Option (B × List ℕ × List ℕ)}
    (h : exec receiveBlockWithTrustedData s = (.ok received, s')) : ∃ first, s.incoming = first :: s'.incoming := by
  obtain ⟨message, s₁, hdequeue, hmessage⟩ := exec_bind_eq_ok h
  have hs' : s₁ = s' := by
    cases message with
    | blockWithTrustedDataV4 block daaWindowIndices ghostdagDataIndices => exact (Prod.mk.inj hmessage).2
    | doneBlocksWithTrustedData => exact (Prod.mk.inj hmessage).2
    | _ => cases hmessage
  cases hincoming : s.incoming with
  | nil => rw [exec_dequeueWithTimeout_nil hincoming] at hdequeue; cases hdequeue
  | cons first incoming =>
    rw [exec_dequeueWithTimeout_cons hincoming] at hdequeue
    exact ⟨first, by rw [← hs', ← (Prod.mk.inj hdequeue).2]⟩

variable (context daaWindow ghostdagData)

inductive TakesOutOfRange : ℕ → Flow D H B W G → Prop
  | here {i : ℕ} {s s₁ : Flow D H B W G} {block : B × List ℕ × List ℕ} :
      exec receiveBlockWithTrustedData s = (.ok (some block), s₁) → OutOfRange daaWindow ghostdagData block →
      TakesOutOfRange i s
  | later {i : ℕ} {s s₁ s₂ s₃ : Flow D H B W G} {block : B × List ℕ × List ℕ} :
      exec receiveBlockWithTrustedData s = (.ok (some block), s₁) →
      exec (processBlockWithTrustedData context block daaWindow ghostdagData) s₁ = (.ok (), s₂) →
      exec (sendIf context ((i + 2) % ibdBatchSize = 0) .requestNextPruningPointAndItsAnticoneBlocks) s₂ =
        (.ok ⟨⟩, s₃) →
      TakesOutOfRange (i + 1) s₃ → TakesOutOfRange i s

end

variable {daaWindow : List W} {block : B × List ℕ × List ℕ}

theorem incoming_round {ghostdagData : List G} {c : Bool} {request : Request} {s₁ s₂ s₃ : Flow D H B W G}
    (hreceive : exec receiveBlockWithTrustedData s = (.ok (some block), s₁))
    (hprocess : exec (processBlockWithTrustedData context block daaWindow ghostdagData) s₁ = (.ok (), s₂))
    (hsend : exec (sendIf context c request) s₂ = (.ok ⟨⟩, s₃)) : ∃ first, s.incoming = first :: s₃.incoming := by
  obtain ⟨first, hfirst⟩ := incoming_receiveBlockWithTrustedData hreceive
  have h₂ := incoming_processBlockWithTrustedData context block daaWindow ghostdagData s₁
  have h₃ : (exec (sendIf context c request) s₂).2.incoming = s₂.incoming := by
    unfold sendIf
    split_ifs <;> rfl
  rw [hprocess] at h₂
  rw [hsend] at h₃
  exact ⟨first, by rw [hfirst, h₃, h₂]⟩

theorem panics_receiveAnticone_iff {ghostdagData : List G} (hsends : Sends context)
    {messages i : ℕ} (hs : Quiet s) (hlength : s.incoming.length ≤ messages) :
    Raises .panic (receiveAnticone context daaWindow ghostdagData messages i) s ↔
      TakesOutOfRange context daaWindow ghostdagData i s := by
  induction messages generalizing i s with
  | zero =>
    have hnil := length_eq_zero_iff.mp (Nat.le_zero.mp hlength)
    refine iff_of_false nofun fun htakes => ?_
    have hreceive : ∃ block s₁, exec receiveBlockWithTrustedData s = (.ok (some block), s₁) := by
      cases htakes with
      | here hexec _ => exact ⟨_, _, hexec⟩
      | later hexec _ _ _ => exact ⟨_, _, hexec⟩
    obtain ⟨block, s₁, hexec⟩ := hreceive
    obtain ⟨first, hfirst⟩ := incoming_receiveBlockWithTrustedData hexec
    rw [hnil] at hfirst
    cases hfirst
  | succ messages ih =>
    unfold receiveAnticone
    rw [raises_bind, or_iff_right (calm_receiveBlockWithTrustedData.not_raises s hs)]
    constructor
    · rintro ⟨received, s₁, hexec, hpanics⟩
      cases received with
      | none => cases hpanics
      | some block =>
        have hs₁ := calm_receiveBlockWithTrustedData.keeps.of_exec hs hexec
        rcases raises_bind.mp hpanics with hprocess | ⟨_, s₂, hprocess, hpanics⟩
        · exact .here hexec ((panics_processBlockWithTrustedData_iff hs₁).mp hprocess)
        have hs₂ : Quiet s₂ := by
          have hincoming := incoming_processBlockWithTrustedData context block daaWindow ghostdagData s₁
          rw [hprocess] at hincoming
          exact fun h => hs₁ (hincoming ▸ h)
        obtain ⟨_, s₃, hsend, -, hpanics⟩ := (calm_sendIf hsends _ _).raises_bind hs₂ hpanics
        obtain ⟨first, hfirst⟩ := incoming_round hexec hprocess hsend
        rw [Quiet, hfirst] at hs
        rw [hfirst, length_cons] at hlength
        exact .later hexec hprocess hsend ((ih (fun h => hs (mem_cons_of_mem _ h)) (by omega)).mp hpanics)
    · rintro (⟨hexec, hrange⟩ | ⟨hexec, hprocess, hsend, htakes⟩)
      · refine ⟨_, _, hexec, raises_bind.mpr (.inl ?_)⟩
        have hs₁ := calm_receiveBlockWithTrustedData.keeps.of_exec hs hexec
        exact (panics_processBlockWithTrustedData_iff hs₁).mpr hrange
      refine ⟨_, _, hexec, raises_bind.mpr (.inr ⟨_, _, hprocess, raises_bind.mpr (.inr ⟨_, _, hsend, ?_⟩)⟩)⟩
      obtain ⟨first, hfirst⟩ := incoming_round hexec hprocess hsend
      rw [Quiet, hfirst] at hs
      rw [hfirst, length_cons] at hlength
      exact (ih (fun h => hs (mem_cons_of_mem _ h)) (by omega)).mpr htakes

/-- The flow gets as far as a block with an index out of range. -/
def GetsOutOfRange (context : Context D H B W G) (proofPruningPoint : DomainHash) (s : Flow D H B W G) : Prop :=
  ∃ s₁ s₂ s₃ s₄ daaWindow ghostdagData block,
    exec (send context .requestPruningPointAndItsAnticone) s = (.ok (), s₁) ∧
    exec (validateAndInsertPruningPoints context proofPruningPoint) s₁ = (.ok (), s₂) ∧
    exec dequeueWithTimeout s₂ = (.ok (.trustedData daaWindow ghostdagData), s₃) ∧
    exec receiveBlockWithTrustedData s₃ = (.ok (some block), s₄) ∧
    context.blockHash block.1 = proofPruningPoint ∧
    (OutOfRange daaWindow ghostdagData block ∨
      ∃ s₅, exec (processBlockWithTrustedData context block daaWindow ghostdagData) s₄ = (.ok (), s₅) ∧
        TakesOutOfRange context daaWindow ghostdagData 0 s₅)

theorem panics_fromFirstBlock_iff {ghostdagData : List G} (hsends : Sends context)
    (proofPruningPoint : DomainHash) (hs : Quiet s) : Raises .panic (do
      returnIf (context.blockHash block.1 ≠ proofPruningPoint) (.protocolError true .firstBlockNotPruningPoint)
      processBlockWithTrustedData context block daaWindow ghostdagData
      receiveAnticone context daaWindow ghostdagData (← get).incoming.length 0) s ↔
    context.blockHash block.1 = proofPruningPoint ∧ (OutOfRange daaWindow ghostdagData block ∨
        ∃ s', exec (processBlockWithTrustedData context block daaWindow ghostdagData) s = (.ok (), s') ∧
          TakesOutOfRange context daaWindow ghostdagData 0 s') := by
  by_cases hhash : context.blockHash block.1 = proofPruningPoint
  case neg =>
    refine iff_of_false (fun hpanics => ?_) fun h => hhash h.1
    rw [decide_eq_true hhash] at hpanics
    cases hpanics
  have hreturn : exec (returnIf (context.blockHash block.1 ≠ proofPruningPoint)
      (FlowError.protocolError true .firstBlockNotPruningPoint)) s = (.ok ⟨⟩, s) := by
    rw [decide_eq_false (not_not.mpr hhash)]
    rfl
  rw [and_iff_right hhash, raises_bind_ok hreturn, raises_bind, panics_processBlockWithTrustedData_iff hs]
  refine or_congr_right (exists_comm.trans (exists_congr fun s' => ?_))
  refine Unique.exists_iff.trans (and_congr_right fun hprocess => ?_)
  have hincoming := incoming_processBlockWithTrustedData context block daaWindow ghostdagData s
  rw [hprocess] at hincoming
  exact panics_receiveAnticone_iff hsends (fun h => hs (hincoming ▸ h)) (le_refl _)

def sampleReads : FinalityReads Unit where
  virtualFinalityPoint := pure 1
  finalityPoint _ := pure 1
  blockStatusExists _ := pure true
  isInSelectedParentChainOf _ _ := pure true

def sampleSyncContext : Context Unit ℕ ℕ Unit Unit :=
  { sampleContext with
    consensus := { sampleConsensus 0 with
      arePruningPointsViolatingFinality := arePruningPointsViolatingFinality sampleReads id } }

def sampleSync (daaWindow ghostdagData : List Unit) : Flow Unit ℕ ℕ Unit Unit :=
  ⟨[.ok (.pruningPoints [7]), .ok (.trustedData daaWindow ghostdagData), .ok (.blockWithTrustedDataV4 7 [0] [0]),
    .ok .doneBlocksWithTrustedData], (), []⟩

end Kaspad.IBD
