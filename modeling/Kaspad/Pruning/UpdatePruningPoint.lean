import Kaspad.Pruning.DeletePastBlocks

/-! # Recovery of an interrupted pruning point update

`updatePruningPoint` and `UpdatePruningPointIfRequired` of
`domain/consensus/processes/pruningmanager/pruningmanager.go`: the diff from the previous pruning point is
written to the pruning point UTXO set entry by entry, the blocks below the pruning point are deleted in one
commit, and the update flag is deleted.

The selected chain between the two pruning points, the headers, the virtual UTXO set and the hash of a UTXO
set do not change meanwhile and are part of the manager.
-/

namespace Kaspad.Pruning
open Lib Ghostdag ConsensusState List

/-! ## The code -/

structure UpdateManager extends PruningManager where
  shouldSanityCheckPruningUTXOSet : Bool
  virtualUTXOSet : UTXOCollection
  currentPruningPointIndex : ℕ
  pruningPointByIndex : GoMap ℕ DomainHash
  /-- The blocks of `SelectedChildIterator` from the second block, exclusive, to the first. -/
  selectedChain : DomainHash → DomainHash → Except PruningError (List DomainHash)
  headerDAAScore : GoMap DomainHash ℕ
  fitsCommitment : UTXOSet → DomainHash → Bool

/-- What `updatePruningPoint` writes. -/
structure PruningDatabase where
  pruningPointUTXOSet : UTXOCollection
  utxoDiffStore : GoMap DomainHash MutableUTXODiff
  utxoDiffChildStore : GoMap DomainHash DomainHash
  acceptanceDataStore : GoMap DomainHash AcceptanceData
  blockStatusStore : GoMap DomainHash BlockStatus
  tips : List DomainHash
  updatingPruningPointUTXOSet : Bool

variable (pm : UpdateManager)

def lookupOr {K V : Type} [DecidableEq K] (store : GoMap K V) (key : K) (error : PruningError) : Except PruningError V :=
  match store.lookup key with
  | some value => .ok value
  | none => .error error

def genesisDiff (d : PruningDatabase) : Except PruningError MutableUTXODiff := do
  if d.blockStatusStore.lookup pm.genesisHash ≠ some .utxoValid then throw .notUTXOValid
  let pastDiff ← (restorePastUTXO d.utxoDiffStore d.utxoDiffChildStore pm.genesisHash).mapError .restore
  -- `IteratorWithDiff` over the virtual UTXO set
  let base := GoMap.addWhere (fun o e => !pastDiff.toRemove.containsWithDAAScore o e.blockDAAScore)
    pm.virtualUTXOSet ∅
  pure ⟨GoMap.addMapped id pastDiff.toAdd base, ∅⟩

def previousPruningPoint : Except PruningError DomainHash :=
  if pm.currentPruningPointIndex = 0 then .error .noPreviousPruningPoint
  else lookupOr pm.pruningPointByIndex (pm.currentPruningPointIndex - 1) .noPreviousPruningPoint

/-- The loop of `calculateDiffBetweenPreviousAndCurrentPruningPoints`: the blocks climbed from the previous and
from the current pruning point. There are fewer pairs of blocks with GHOSTDAG data than rounds, so a loop that is
still running never ends. -/
def climb (utxoDiffChildren : GoMap DomainHash DomainHash) : ℕ → DomainHash → DomainHash → ℕ → ℕ →
    Except PruningError (List DomainHash × List DomainHash)
  | 0, _, _, _, _ => .error .endless
  | n + 1, current, previous, currentBlueWork, previousBlueWork =>
    if previousBlueWork < currentBlueWork then do
      let child ← lookupOr utxoDiffChildren previous (.notFound previous)
      let diffChildGhostDag ← (pm.stores.get (some child) false).mapError .ghostdag
      let (fromPrevious, fromCurrent) ←
        climb utxoDiffChildren n current child currentBlueWork diffChildGhostDag.blueWork
      pure (previous :: fromPrevious, fromCurrent)
    else if current = previous then pure ([], [])
    else do
      let child ← lookupOr utxoDiffChildren current (.notFound current)
      let diffChildGhostDag ← (pm.stores.get (some child) false).mapError .ghostdag
      let (fromPrevious, fromCurrent) ←
        climb utxoDiffChildren n child previous diffChildGhostDag.blueWork previousBlueWork
      pure (fromPrevious, current :: fromCurrent)

def accumulate (utxoDiffs : GoMap DomainHash MutableUTXODiff) (blocks : List DomainHash) :
    Except PruningError MutableUTXODiff :=
  blocks.reverse.foldlM (fun accumulated block => do
    let utxoDiff ← lookupOr utxoDiffs block (.notFound block)
    (withDiffInPlace accumulated utxoDiff).mapError .diff) .new

def calculateDiffBetweenPreviousAndCurrentPruningPoints (d : PruningDatabase) (currentPruningHash : DomainHash) :
    Except PruningError MutableUTXODiff :=
  if currentPruningHash = pm.genesisHash then genesisDiff pm d
  else do
    let previousPruningHash ← previousPruningPoint pm
    let currentPruningGhostDAG ← (pm.stores.get (some currentPruningHash) false).mapError .ghostdag
    let previousPruningGhostDAG ← (pm.stores.get (some previousPruningHash) false).mapError .ghostdag
    let (diffHashesFromPrevious, diffHashesFromCurrent) ← climb pm d.utxoDiffChildStore
      ((pm.stores.data.size + 2) ^ 2) currentPruningHash previousPruningHash
      currentPruningGhostDAG.blueWork previousPruningGhostDAG.blueWork
    let oldDiff ← accumulate d.utxoDiffStore diffHashesFromPrevious
    let newDiff ← accumulate d.utxoDiffStore diffHashesFromCurrent
    (diffFrom oldDiff newDiff).mapError .diff

def calculateDiffUsingAcceptanceData (d : PruningDatabase) (currentPruningHash : DomainHash) :
    Except PruningError MutableUTXODiff :=
  if currentPruningHash = pm.genesisHash then genesisDiff pm d
  else do
    let previousPruningHash ← previousPruningPoint pm
    let chain ← pm.selectedChain currentPruningHash previousPruningHash
    chain.foldlM (fun utxoDiff child => do
      let acceptanceData ← lookupOr d.acceptanceDataStore child (.notFound child)
      let daaScore ← lookupOr pm.headerDAAScore child (.notFound child)
      let accepted := (acceptanceData.flatMap (·.transactionAcceptanceData)).filter (·.isAccepted)
      accepted.foldlM (fun (utxoDiff : MutableUTXODiff) tx =>
        (utxoDiff.addTransaction tx.transaction tx.transactionInputUTXOEntries daaScore).mapError .diff) utxoDiff) .new

/-- The diff that `updatePruningPoint` writes: by diff children, or else by acceptance data. -/
def utxoSetDiff (d : PruningDatabase) (pruningPoint : DomainHash) : Except PruningError MutableUTXODiff :=
  match calculateDiffBetweenPreviousAndCurrentPruningPoints pm d pruningPoint with
  | .ok diff => .ok diff
  | .error _ => calculateDiffUsingAcceptanceData pm d pruningPoint

def validateUTXOSetFitsCommitment (pruningPoint : DomainHash) (S : UTXOSet) : Except PruningError Unit :=
  if pm.shouldSanityCheckPruningUTXOSet ∧ pruningPoint ≠ pm.genesisHash ∧ ¬ pm.fitsCommitment S pruningPoint then
    .error .badUTXOCommitment
  else .ok ()

namespace PruningDatabase

def onPruningPointUTXOSet (w : UTXOCollection → UTXOCollection) (d : PruningDatabase) : PruningDatabase :=
  { d with pruningPointUTXOSet := w d.pruningPointUTXOSet }

def commitDeletion (newTips deleted : List DomainHash) (d : PruningDatabase) : PruningDatabase :=
  let d := { d with
    tips := newTips
    blockStatusStore := deleted.foldl (fun store block => store.insert block .headerOnly) d.blockStatusStore }
  if pm.isArchivalNode then d
  else { d with
    acceptanceDataStore := deleted.foldl (fun store block => store.erase block) d.acceptanceDataStore
    utxoDiffStore := deleted.foldl (fun store block => store.erase block) d.utxoDiffStore
    utxoDiffChildStore := deleted.foldl (fun store block => store.erase block) d.utxoDiffChildStore }

def finishUpdatingPruningPointUTXOSet (d : PruningDatabase) : PruningDatabase :=
  { d with updatingPruningPointUTXOSet := false }

end PruningDatabase

open OnDisk PruningDatabase

def updatePruningPoint : OnDisk PruningDatabase PruningError Unit := do
  let d ← read
  let pruningPoint ← ofExcept (lookupOr pm.pruningPointByIndex pm.currentPruningPointIndex .noPreviousPruningPoint)
  let diff ← ofExcept (utxoSetDiff pm d pruningPoint)
  writeAll (diff.writes.map onPruningPointUTXOSet)
  let d ← read
  ofExcept (validateUTXOSetFitsCommitment pm pruningPoint fun o => d.pruningPointUTXOSet.lookup o)
  let (newTips, deleted) ← ofExcept (deletePastBlocks pm.toPruningManager d.blockStatusStore d.tips pruningPoint)
  write (commitDeletion pm newTips deleted)
  write finishUpdatingPruningPointUTXOSet

def updatePruningPointIfRequired : OnDisk PruningDatabase PruningError Unit := do
  let d ← read
  if !d.updatingPruningPointUTXOSet then pure ()
  else updatePruningPoint pm

/-! ## A run that returns -/

structure Planned (d : PruningDatabase) (pruningPoint : DomainHash) (diff : MutableUTXODiff)
    (newTips deleted : List DomainHash) : Prop where
  point : lookupOr pm.pruningPointByIndex pm.currentPruningPointIndex .noPreviousPruningPoint = .ok pruningPoint
  calculated : utxoSetDiff pm d pruningPoint = .ok diff
  commitment : validateUTXOSetFitsCommitment pm pruningPoint
    (diff.applyTo fun o => d.pruningPointUTXOSet.lookup o) = .ok ()
  walk : deletePastBlocks pm.toPruningManager d.blockStatusStore d.tips pruningPoint = .ok (newTips, deleted)

def PruningDatabase.written (d : PruningDatabase) (diff : MutableUTXODiff) : PruningDatabase :=
  { d with pruningPointUTXOSet := diff.writeTo d.pruningPointUTXOSet }

theorem writeAll_run (diff : MutableUTXODiff) (d : PruningDatabase) :
    (writeAll (diff.writes.map onPruningPointUTXOSet) : OnDisk PruningDatabase PruningError Unit).answer d = .ok () ∧
      (writeAll (diff.writes.map onPruningPointUTXOSet) : OnDisk PruningDatabase PruningError Unit).final d =
        d.written diff :=
  ⟨answer_writeAll _ _, (final_writeAll _ _).trans (foldl_map_over (p := fun bucket =>
    { d with pruningPointUTXOSet := bucket }) (fun _ _ => rfl) _ _)⟩

def afterWrites (pruningPoint : DomainHash) : OnDisk PruningDatabase PruningError Unit := do
  let d ← read
  ofExcept (validateUTXOSetFitsCommitment pm pruningPoint fun o => d.pruningPointUTXOSet.lookup o)
  let (newTips, deleted) ← ofExcept (deletePastBlocks pm.toPruningManager d.blockStatusStore d.tips pruningPoint)
  write (commitDeletion pm newTips deleted)
  write finishUpdatingPruningPointUTXOSet

section
variable {pm} {d d' : PruningDatabase} {pruningPoint : DomainHash} {diff : MutableUTXODiff}
  {newTips deleted : List DomainHash}

theorem updatePruningPoint_eq (hpoint : lookupOr pm.pruningPointByIndex pm.currentPruningPointIndex
    .noPreviousPruningPoint = .ok pruningPoint) (hdiff : utxoSetDiff pm d pruningPoint = .ok diff) :
    updatePruningPoint pm d =
      (writeAll (diff.writes.map onPruningPointUTXOSet) >>= fun _ => afterWrites pm pruningPoint) d := by
  unfold updatePruningPoint
  rw [read_bind, hpoint, ofExcept_ok_bind, hdiff, ofExcept_ok_bind]
  rfl

variable (h : Planned pm d pruningPoint diff newTips deleted)
include h

theorem Planned.afterWrites_eq : afterWrites pm pruningPoint (d.written diff) =
      (write (commitDeletion pm newTips deleted) >>= fun _ => write finishUpdatingPruningPointUTXOSet)
        (d.written diff) := by
  have hcommitment := h.commitment
  rw [← diff.lookup_writeTo] at hcommitment
  unfold afterWrites
  rw [read_bind]
  change (ofExcept (validateUTXOSetFitsCommitment pm pruningPoint fun o =>
    (diff.writeTo d.pruningPointUTXOSet).lookup o) >>= fun _ => ofExcept (deletePastBlocks pm.toPruningManager
      d.blockStatusStore d.tips pruningPoint) >>= _) (d.written diff) = _
  rw [hcommitment, ofExcept_ok_bind, h.walk, ofExcept_ok_bind]

theorem Planned.run : (updatePruningPoint pm).answer d = .ok () ∧ (updatePruningPoint pm).final d =
      finishUpdatingPruningPointUTXOSet (commitDeletion pm newTips deleted (d.written diff)) := by
  obtain ⟨hanswer, hfinal⟩ := writeAll_run diff d
  unfold answer final
  rw [updatePruningPoint_eq h.point h.calculated]
  change (writeAll _ >>= fun _ => afterWrites pm pruningPoint).answer d = _ ∧
    (writeAll _ >>= fun _ => afterWrites pm pruningPoint).final d = _
  rw [answer_bind_ok hanswer, final_bind_ok hanswer, hfinal]
  unfold answer final
  rw [h.afterWrites_eq]
  exact ⟨rfl, rfl⟩

omit h

theorem planned_of_ok (h : (updatePruningPoint pm).answer d = .ok ()) :
    ∃ pruningPoint diff newTips deleted, Planned pm d pruningPoint diff newTips deleted := by
  cases hpoint : lookupOr pm.pruningPointByIndex pm.currentPruningPointIndex .noPreviousPruningPoint with
  | error e =>
    unfold updatePruningPoint answer at h
    rw [read_bind, hpoint] at h
    cases h
  | ok pruningPoint =>
    cases hdiff : utxoSetDiff pm d pruningPoint with
    | error e =>
      unfold updatePruningPoint answer at h
      rw [read_bind, hpoint, ofExcept_ok_bind, hdiff] at h
      cases h
    | ok diff =>
      obtain ⟨hanswer, hfinal⟩ := writeAll_run diff d
      unfold answer at h
      rw [updatePruningPoint_eq hpoint hdiff] at h
      change (writeAll _ >>= fun _ => afterWrites pm pruningPoint).answer d = _ at h
      rw [answer_bind_ok hanswer, hfinal] at h
      unfold afterWrites answer at h
      rw [read_bind] at h
      change ((ofExcept (validateUTXOSetFitsCommitment pm pruningPoint fun o =>
        (diff.writeTo d.pruningPointUTXOSet).lookup o) >>= fun _ => ofExcept (deletePastBlocks pm.toPruningManager
          d.blockStatusStore d.tips pruningPoint) >>= _) (d.written diff)).2 = _ at h
      cases hcommitment : validateUTXOSetFitsCommitment pm pruningPoint
          fun o => (diff.writeTo d.pruningPointUTXOSet).lookup o with
      | error e =>
        rw [hcommitment] at h
        cases h
      | ok =>
        rw [hcommitment, ofExcept_ok_bind] at h
        cases hwalk : deletePastBlocks pm.toPruningManager d.blockStatusStore d.tips pruningPoint with
        | error e =>
          rw [hwalk] at h
          cases h
        | ok walked =>
          rw [diff.lookup_writeTo] at hcommitment
          exact ⟨pruningPoint, diff, walked.1, walked.2, hpoint, hdiff, hcommitment, hwalk⟩

structure PruningDatabase.Writing (d : PruningDatabase) (diff : MutableUTXODiff) (d' : PruningDatabase) : Prop where
  elsewhere : ∀ o, ¬ diff.Writes o → d'.pruningPointUTXOSet.lookup o = d.pruningPointUTXOSet.lookup o
  rest : d' = { d with pruningPointUTXOSet := d'.pruningPointUTXOSet }

theorem PruningDatabase.Writing.refl (d : PruningDatabase) (diff : MutableUTXODiff) : d.Writing diff d :=
  ⟨fun _ _ => rfl, rfl⟩

include h in
theorem Planned.stops (hstop : Stops (updatePruningPoint pm) d d') :
    d.Writing diff d' ∨ d' = commitDeletion pm newTips deleted (d.written diff) ∨
      d' = finishUpdatingPruningPointUTXOSet (commitDeletion pm newTips deleted (d.written diff)) := by
  unfold Stops at hstop
  rw [updatePruningPoint_eq h.point h.calculated] at hstop
  change Stops (writeAll _ >>= fun _ => afterWrites pm pruningPoint) d d' at hstop
  obtain hstop | ⟨_, -, hstop⟩ := hstop.bind
  · refine .inl (Stops.writeAll (P := d.Writing diff) (fun w hw d₁ hd₁ => ?_) (.refl d diff) hstop)
    obtain ⟨w, hw', rfl⟩ := mem_map.mp hw
    refine ⟨fun o ho => (diff.writes_elsewhere hw' ho _).trans (hd₁.elsewhere o ho), ?_⟩
    rw [hd₁.rest]
    rfl
  rw [(writeAll_run diff d).2] at hstop
  unfold Stops at hstop
  rw [h.afterWrites_eq] at hstop
  change Stops (write (commitDeletion pm newTips deleted) >>= fun _ => write finishUpdatingPruningPointUTXOSet)
    (d.written diff) d' at hstop
  obtain hstop | ⟨_, -, hstop⟩ := hstop.bind
  · obtain rfl | rfl := (stops_write _).mp hstop
    · exact .inl ⟨fun o ho => (congrFun (diff.lookup_writeTo _) o).trans (diff.applyTo_elsewhere ho), rfl⟩
    · exact .inr (.inl rfl)
  obtain rfl | rfl := (stops_write _).mp hstop
  · exact .inr (.inl rfl)
  · exact .inr (.inr rfl)

/-! ## Recovery -/

theorem recovery_eq (pm : UpdateManager) (hflag : d'.updatingPruningPointUTXOSet = true) :
    (updatePruningPointIfRequired pm).answer d' = (updatePruningPoint pm).answer d' ∧
      (updatePruningPointIfRequired pm).final d' = (updatePruningPoint pm).final d' := by
  unfold answer final updatePruningPointIfRequired
  rw [read_bind, hflag]
  exact ⟨rfl, rfl⟩

structure Recovered (pm : UpdateManager) (d d' : PruningDatabase) : Prop where
  answer : (updatePruningPointIfRequired pm).answer d' = .ok ()
  utxoSet : GoMap.Same ((updatePruningPointIfRequired pm).final d').pruningPointUTXOSet
    ((updatePruningPoint pm).final d).pruningPointUTXOSet
  headerOnly : ∀ b, ((updatePruningPointIfRequired pm).final d').blockStatusStore.lookup b = some .headerOnly ↔
    ((updatePruningPoint pm).final d).blockStatusStore.lookup b = some .headerOnly
  flag : ((updatePruningPointIfRequired pm).final d').updatingPruningPointUTXOSet = false

theorem commitDeletion_pruningPointUTXOSet (pm : UpdateManager) (newTips deleted : List DomainHash)
    (d : PruningDatabase) : (commitDeletion pm newTips deleted d).pruningPointUTXOSet = d.pruningPointUTXOSet ∧
      (commitDeletion pm newTips deleted d).tips = newTips ∧
      (commitDeletion pm newTips deleted d).updatingPruningPointUTXOSet = d.updatingPruningPointUTXOSet ∧
      (commitDeletion pm newTips deleted d).blockStatusStore =
        deleted.foldl (fun store block => store.insert block .headerOnly) d.blockStatusStore := by
  unfold commitDeletion
  cases pm.isArchivalNode <;> exact ⟨rfl, rfl, rfl, rfl⟩

theorem lookup_headerOnly (deleted : List DomainHash) (store : GoMap DomainHash BlockStatus) (b : DomainHash) :
    (deleted.foldl (fun store block => store.insert block .headerOnly) store).lookup b =
      if b ∈ deleted then some .headerOnly else store.lookup b := by
  induction deleted generalizing store with
  | nil => simp
  | cons x deleted ih =>
    rw [foldl_cons, ih, GoMap.lookup_set]
    by_cases hb : b ∈ deleted <;> by_cases hx : b = x <;> simp [hb, hx]

include h

theorem Planned.of_writing (hd' : d.Writing diff d') : Planned pm d' pruningPoint diff newTips deleted := by
  have hset := diff.applyTo_congr hd'.elsewhere
  rw [hd'.rest] at hset ⊢
  exact ⟨h.point, h.calculated, hset ▸ h.commitment, h.walk⟩

variable (hflag : d.updatingPruningPointUTXOSet = true)
include hflag

theorem Planned.recovered_of_writing (hd' : d.Writing diff d') : Recovered pm d d' := by
  have hflag' : d'.updatingPruningPointUTXOSet = true := by rw [hd'.rest]; exact hflag
  obtain ⟨hanswer, hfinal⟩ := (h.of_writing hd').run
  obtain ⟨hanswer', hfinal'⟩ := recovery_eq pm hflag'
  have hset := commitDeletion_pruningPointUTXOSet pm newTips deleted (d.written diff)
  have hset' := commitDeletion_pruningPointUTXOSet pm newTips deleted (d'.written diff)
  refine ⟨hanswer'.trans hanswer, fun o => ?_, fun b => ?_, ?_⟩
  · rw [hfinal', hfinal, h.run.2]
    change (commitDeletion pm newTips deleted (d'.written diff)).pruningPointUTXOSet.lookup o =
      (commitDeletion pm newTips deleted (d.written diff)).pruningPointUTXOSet.lookup o
    rw [hset.1, hset'.1]
    have hwritten := (diff.lookup_writeTo d'.pruningPointUTXOSet).trans
      ((diff.applyTo_congr hd'.elsewhere).trans (diff.lookup_writeTo d.pruningPointUTXOSet).symm)
    exact congrFun hwritten o
  · rw [hfinal', hfinal, h.run.2]
    change (commitDeletion pm newTips deleted (d'.written diff)).blockStatusStore.lookup b = _ ↔
      (commitDeletion pm newTips deleted (d.written diff)).blockStatusStore.lookup b = _
    rw [hset.2.2.2, hset'.2.2.2, hd'.rest]
    rfl
  · rw [hfinal', hfinal]
    rfl

theorem Planned.recovered_of_deleted : Recovered pm d (commitDeletion pm newTips deleted (d.written diff)) ↔
      ∃ diff', utxoSetDiff pm (commitDeletion pm newTips deleted (d.written diff)) pruningPoint = .ok diff' ∧
        diff'.applyTo (diff.applyTo fun o => d.pruningPointUTXOSet.lookup o) =
          diff.applyTo fun o => d.pruningPointUTXOSet.lookup o := by
  set d' := commitDeletion pm newTips deleted (d.written diff) with hd'
  obtain ⟨hbucket, htips, hflag', hstatuses⟩ := commitDeletion_pruningPointUTXOSet pm newTips deleted (d.written diff)
  rw [← hd'] at hbucket htips hflag' hstatuses
  have hset : (fun o => d'.pruningPointUTXOSet.lookup o) = diff.applyTo fun o => d.pruningPointUTXOSet.lookup o := by
    rw [hbucket]
    exact diff.lookup_writeTo d.pruningPointUTXOSet
  obtain ⟨hanswer', hfinal'⟩ := recovery_eq pm (hflag'.trans hflag)
  have hagain : deletePastBlocks pm.toPruningManager d'.blockStatusStore d'.tips pruningPoint = .ok (newTips, []) := by
    rw [htips]
    refine deletePastBlocks_again h.walk (fun b hb => ?_) fun b hb => ?_
    · rw [hstatuses, lookup_headerOnly, if_pos hb]
    rw [hstatuses, lookup_headerOnly, if_neg hb]
    rfl
  constructor
  · intro hrecovered
    obtain ⟨pruningPoint', diff', newTips', deleted', hplan⟩ :=
      planned_of_ok (hanswer'.symm.trans hrecovered.answer)
    obtain rfl : pruningPoint = pruningPoint' := Except.ok.inj (h.point.symm.trans hplan.point)
    cases Except.ok.inj (hagain.symm.trans hplan.walk)
    refine ⟨diff', hplan.calculated, ?_⟩
    have hsame := hrecovered.utxoSet
    rw [hfinal', hplan.run.2, h.run.2] at hsame
    have hbucket' := (commitDeletion_pruningPointUTXOSet pm newTips [] (d'.written diff')).1
    rw [← hset, ← diff'.lookup_writeTo]
    funext o
    exact (congrArg (fun bucket : UTXOCollection => bucket.lookup o) hbucket').symm.trans (hsame o)
  rintro ⟨diff', hdiff', heq⟩
  have hplan : Planned pm d' pruningPoint diff' newTips [] := by
    refine ⟨h.point, hdiff', ?_, hagain⟩
    rw [hset, heq]
    exact h.commitment
  obtain ⟨hbucket', -, -, hstatuses'⟩ := commitDeletion_pruningPointUTXOSet pm newTips [] (d'.written diff')
  refine ⟨hanswer'.trans hplan.run.1, fun o => ?_, fun b => ?_, ?_⟩
  · rw [hfinal', hplan.run.2, h.run.2]
    change (commitDeletion pm newTips [] (d'.written diff')).pruningPointUTXOSet.lookup o =
      d'.pruningPointUTXOSet.lookup o
    rw [hbucket']
    refine (congrFun (diff'.lookup_writeTo d'.pruningPointUTXOSet) o).trans ?_
    rw [hset, heq]
    exact (congrFun hset o).symm
  · rw [hfinal', hplan.run.2, h.run.2]
    change (commitDeletion pm newTips [] (d'.written diff')).blockStatusStore.lookup b = _ ↔
      d'.blockStatusStore.lookup b = _
    rw [hstatuses']
    rfl
  · rw [hfinal', hplan.run.2]
    rfl

omit hflag

theorem Planned.recovered_of_finished : Recovered pm d
    (finishUpdatingPruningPointUTXOSet (commitDeletion pm newTips deleted (d.written diff))) := by
  have hfinal := h.run.2
  set d' := finishUpdatingPruningPointUTXOSet (commitDeletion pm newTips deleted (d.written diff))
  -- The flag is cleared: nothing is done.
  obtain ⟨hanswer', hfinal'⟩ : (updatePruningPointIfRequired pm).answer d' = .ok () ∧
      (updatePruningPointIfRequired pm).final d' = d' := ⟨rfl, rfl⟩
  refine ⟨hanswer', fun o => ?_, fun b => ?_, ?_⟩
  · rw [hfinal', hfinal]
  · rw [hfinal', hfinal]
  · rw [hfinal']
    rfl

omit h

/-! ## What the diff is computed from -/

/-- The blocks climbed from the two pruning points: those whose UTXO diffs make up the difference. -/
def climbedBlocks (pm : UpdateManager) (d : PruningDatabase) (pruningPoint previous : DomainHash) : List DomainHash :=
  match climb pm d.utxoDiffChildStore ((pm.stores.data.size + 2) ^ 2) pruningPoint previous
    (pm.stores.work pruningPoint) (pm.stores.work previous) with
  | .ok (fromPrevious, fromCurrent) => fromPrevious ++ fromCurrent
  | .error _ => []

/-- `d` has the difference by diff children, and `d'` still has the diffs and the diff children of all blocks climbed. -/
def DiffsKept (pm : UpdateManager) (d d' : PruningDatabase) (pruningPoint : DomainHash) : Prop :=
  ∃ previous diff, previousPruningPoint pm = .ok previous ∧
    calculateDiffBetweenPreviousAndCurrentPruningPoints pm d pruningPoint = .ok diff ∧
    ∀ b ∈ climbedBlocks pm d pruningPoint previous,
      (d'.utxoDiffChildStore.lookup b).isSome = true ∧ (d'.utxoDiffStore.lookup b).isSome = true

/-- `d` has the difference by acceptance data, and `d'` still has that of all chain blocks between the pruning points. -/
def AcceptanceKept (pm : UpdateManager) (d d' : PruningDatabase) (pruningPoint : DomainHash) : Prop :=
  ∃ previous chain diff, previousPruningPoint pm = .ok previous ∧ pm.selectedChain pruningPoint previous = .ok chain ∧
    calculateDiffUsingAcceptanceData pm d pruningPoint = .ok diff ∧
    ∀ b ∈ chain, (d'.acceptanceDataStore.lookup b).isSome = true

/-- Nothing was added to or changed in the stores that a deletion shrinks. -/
structure PruningDatabase.Shrunk (d d' : PruningDatabase) : Prop where
  children : ∀ b child, d'.utxoDiffChildStore.lookup b = some child → d.utxoDiffChildStore.lookup b = some child
  diffs : ∀ b diff, d'.utxoDiffStore.lookup b = some diff → d.utxoDiffStore.lookup b = some diff
  acceptance : ∀ b data, d'.acceptanceDataStore.lookup b = some data → d.acceptanceDataStore.lookup b = some data

theorem PruningDatabase.Shrunk.refl (d : PruningDatabase) : d.Shrunk d :=
  ⟨fun _ _ => id, fun _ _ => id, fun _ _ => id⟩

theorem PruningDatabase.shrunk_commitDeletion (pm : UpdateManager) (newTips deleted : List DomainHash)
    (d : PruningDatabase) :
    d.Shrunk (commitDeletion pm newTips deleted d) := by
  have herase : ∀ {V : Type} (store : GoMap DomainHash V) (b : DomainHash) (v : V),
      (deleted.foldl (fun store block => store.erase block) store).lookup b = some v → store.lookup b = some v := by
    intro V store b v hv
    have hlookup := (GoMap.lookup_deletes id deleted store b).symm.trans hv
    split_ifs at hlookup
    exact hlookup
  unfold commitDeletion
  cases pm.isArchivalNode with
  | true => exact ⟨fun _ _ => id, fun _ _ => id, fun _ _ => id⟩
  | false => exact ⟨herase _, herase _, herase _⟩

section
variable {V : Type} {store store' : GoMap DomainHash V}
  (hstore : ∀ b v, store'.lookup b = some v → store.lookup b = some v)
include hstore

theorem lookupOr_shrunk (b : DomainHash) (e : PruningError) (v : V) :
    lookupOr store' b e = .ok v ↔ lookupOr store b e = .ok v ∧ (store'.lookup b).isSome = true := by
  unfold lookupOr
  cases hb : store'.lookup b with
  | none => simp
  | some v' => simp [hstore b v' hb]

end

theorem climb_shrunk {children children' : GoMap DomainHash DomainHash}
    (hchildren : ∀ b child, children'.lookup b = some child → children.lookup b = some child) (n : ℕ)
    (current previous : DomainHash) (currentWork previousWork : ℕ) (result : List DomainHash × List DomainHash) :
    climb pm children' n current previous currentWork previousWork = .ok result ↔
      climb pm children n current previous currentWork previousWork = .ok result ∧
        ∀ b ∈ result.1 ++ result.2, (children'.lookup b).isSome = true := by
  induction n generalizing current previous currentWork previousWork result with
  | zero => simp [climb]
  | succ n ih =>
    unfold climb
    split_ifs with hless hsame
    · simp only [bind_eq_ok, lookupOr_shrunk hchildren, ih]
      constructor
      · rintro ⟨child, ⟨hchild, hkept⟩, data, hdata, found, ⟨hfound, hall⟩, h⟩
        cases h
        exact ⟨⟨child, hchild, data, hdata, found, hfound, rfl⟩, forall_mem_cons.mpr ⟨hkept, hall⟩⟩
      · rintro ⟨⟨child, hchild, data, hdata, found, hfound, h⟩, hall⟩
        cases h
        obtain ⟨hkept, hall⟩ := forall_mem_cons.mp hall
        exact ⟨child, ⟨hchild, hkept⟩, data, hdata, found, ⟨hfound, hall⟩, rfl⟩
    · simp only [pure, Except.pure, Except.ok.injEq, iff_self_and]
      rintro rfl
      simp
    · simp only [bind_eq_ok, lookupOr_shrunk hchildren, ih]
      constructor
      · rintro ⟨child, ⟨hchild, hkept⟩, data, hdata, found, ⟨hfound, hall⟩, h⟩
        cases h
        refine ⟨⟨child, hchild, data, hdata, found, hfound, rfl⟩, fun b hb => ?_⟩
        obtain rfl | hb := mem_cons.mp (perm_middle.mem_iff.mp hb)
        · exact hkept
        · exact hall b hb
      · rintro ⟨⟨child, hchild, data, hdata, found, hfound, h⟩, hall⟩
        cases h
        have hall := fun b hb => hall b (perm_middle.mem_iff.mpr hb)
        obtain ⟨hkept, hall⟩ := forall_mem_cons.mp hall
        exact ⟨child, ⟨hchild, hkept⟩, data, hdata, found, ⟨hfound, hall⟩, rfl⟩

theorem get_eq_ok {b : DomainHash} {data : BlockGHOSTDAGData}
    (h : (pm.stores.get (some b) false).mapError PruningError.ghostdag = .ok data) :
    data.blueWork = pm.stores.work b := by
  have hdata : lookupOrFail pm.stores.data b = .ok data := mapError_eq_ok.mp h
  unfold lookupOrFail at hdata
  unfold Stores.work
  cases hlookup : pm.stores.data.lookup b with
  | none => simp [hlookup, throw, throwThe, MonadExceptOf.throw] at hdata
  | some data' =>
    rw [hlookup] at hdata
    rw [← Except.ok.inj hdata]
    rfl

section
variable (hne : pruningPoint ≠ pm.genesisHash)
include hne

theorem calculateDiff_eq_ok {previous : DomainHash} (hprevious : previousPruningPoint pm = .ok previous) :
    calculateDiffBetweenPreviousAndCurrentPruningPoints pm d pruningPoint = .ok diff ↔
      ∃ currentData previousData fromPrevious fromCurrent oldDiff newDiff,
        (pm.stores.get (some pruningPoint) false).mapError PruningError.ghostdag = .ok currentData ∧
        (pm.stores.get (some previous) false).mapError PruningError.ghostdag = .ok previousData ∧
        climb pm d.utxoDiffChildStore ((pm.stores.data.size + 2) ^ 2) pruningPoint previous
          (pm.stores.work pruningPoint) (pm.stores.work previous) = .ok (fromPrevious, fromCurrent) ∧
        accumulate d.utxoDiffStore fromPrevious = .ok oldDiff ∧ accumulate d.utxoDiffStore fromCurrent = .ok newDiff ∧
        (diffFrom oldDiff newDiff).mapError PruningError.diff = .ok diff := by
  unfold calculateDiffBetweenPreviousAndCurrentPruningPoints
  simp only [if_neg hne, hprevious, ok_bind, bind_eq_ok]
  constructor
  · rintro ⟨currentData, hcurrent, previousData, hprevious, ⟨fromPrevious, fromCurrent⟩, hclimb, oldDiff, hold,
      newDiff, hnew, hdiff⟩
    rw [get_eq_ok hcurrent, get_eq_ok hprevious] at hclimb
    exact ⟨currentData, previousData, fromPrevious, fromCurrent, oldDiff, newDiff, hcurrent, hprevious, hclimb, hold,
      hnew, hdiff⟩
  · rintro ⟨currentData, previousData, fromPrevious, fromCurrent, oldDiff, newDiff, hcurrent, hprevious, hclimb, hold,
      hnew, hdiff⟩
    rw [← get_eq_ok hcurrent, ← get_eq_ok hprevious] at hclimb
    exact ⟨currentData, hcurrent, previousData, hprevious, _, hclimb, oldDiff, hold, newDiff, hnew, hdiff⟩

variable (hshrunk : d.Shrunk d')
include hshrunk

theorem calculateDiff_shrunk {previous : DomainHash} (hprevious : previousPruningPoint pm = .ok previous) :
    calculateDiffBetweenPreviousAndCurrentPruningPoints pm d' pruningPoint = .ok diff ↔
      calculateDiffBetweenPreviousAndCurrentPruningPoints pm d pruningPoint = .ok diff ∧
        ∀ b ∈ climbedBlocks pm d pruningPoint previous,
          (d'.utxoDiffChildStore.lookup b).isSome = true ∧ (d'.utxoDiffStore.lookup b).isSome = true := by
  have haccumulate : ∀ blocks r, accumulate d'.utxoDiffStore blocks = .ok r ↔
      accumulate d.utxoDiffStore blocks = .ok r ∧ ∀ b ∈ blocks, (d'.utxoDiffStore.lookup b).isSome = true := by
    intro blocks r
    have hreverse : (∀ b ∈ blocks, (d'.utxoDiffStore.lookup b).isSome = true) ↔
        ∀ b ∈ blocks.reverse, (d'.utxoDiffStore.lookup b).isSome = true := by simp only [mem_reverse]
    rw [hreverse]
    refine foldlM_eq_ok_iff (fun accumulated b c => ?_) _ _ _
    simp only [bind_eq_ok, lookupOr_shrunk hshrunk.diffs]
    exact ⟨fun ⟨v, ⟨hv, hb⟩, hc⟩ => ⟨⟨v, hv, hc⟩, hb⟩, fun ⟨⟨v, hv, hc⟩, hb⟩ => ⟨v, ⟨hv, hb⟩, hc⟩⟩
  rw [calculateDiff_eq_ok hne hprevious, calculateDiff_eq_ok hne hprevious]
  simp only [climb_shrunk hshrunk.children, haccumulate]
  constructor
  · rintro ⟨cdata, pdata, fromPrevious, fromCurrent, oldDiff, newDiff, hcdata, hpdata, ⟨hclimb, hchildren⟩,
      ⟨hold, hpkept⟩, ⟨hnew, hckept⟩, hdiff⟩
    refine ⟨⟨cdata, pdata, fromPrevious, fromCurrent, oldDiff, newDiff, hcdata, hpdata, hclimb, hold, hnew, hdiff⟩,
      fun b hb => ?_⟩
    simp only [climbedBlocks, hclimb] at hb
    exact ⟨hchildren b hb, (mem_append.mp hb).elim (hpkept b) (hckept b)⟩
  · rintro ⟨⟨cdata, pdata, fromPrevious, fromCurrent, oldDiff, newDiff, hcdata, hpdata, hclimb, hold, hnew, hdiff⟩,
      hkept⟩
    simp only [climbedBlocks, hclimb] at hkept
    exact ⟨cdata, pdata, fromPrevious, fromCurrent, oldDiff, newDiff, hcdata, hpdata,
      ⟨hclimb, fun b hb => (hkept b hb).1⟩, ⟨hold, fun b hb => (hkept b (mem_append_left _ hb)).2⟩,
      ⟨hnew, fun b hb => (hkept b (mem_append_right _ hb)).2⟩, hdiff⟩

theorem calculateDiffUsingAcceptanceData_shrunk {previous : DomainHash} {chain : List DomainHash}
    (hprevious : previousPruningPoint pm = .ok previous) (hchain : pm.selectedChain pruningPoint previous = .ok chain) :
    calculateDiffUsingAcceptanceData pm d' pruningPoint = .ok diff ↔
      calculateDiffUsingAcceptanceData pm d pruningPoint = .ok diff ∧
        ∀ b ∈ chain, (d'.acceptanceDataStore.lookup b).isSome = true := by
  unfold calculateDiffUsingAcceptanceData
  simp only [if_neg hne, hprevious, hchain, ok_bind]
  refine foldlM_eq_ok_iff (fun utxoDiff b c => ?_) _ _ _
  simp only [bind_eq_ok, lookupOr_shrunk hshrunk.acceptance]
  exact ⟨fun ⟨v, ⟨hv, hb⟩, hc⟩ => ⟨⟨v, hv, hc⟩, hb⟩, fun ⟨⟨v, hv, hc⟩, hb⟩ => ⟨v, ⟨hv, hb⟩, hc⟩⟩

theorem diffsKept_iff : DiffsKept pm d d' pruningPoint ↔
    ∃ diff, calculateDiffBetweenPreviousAndCurrentPruningPoints pm d' pruningPoint = .ok diff := by
  constructor
  · rintro ⟨previous, diff, hprevious, hdiff, hkept⟩
    exact ⟨diff, (calculateDiff_shrunk hne hshrunk hprevious).mpr ⟨hdiff, hkept⟩⟩
  rintro ⟨diff, hdiff⟩
  cases hprevious : previousPruningPoint pm with
  | error e =>
    rw [calculateDiffBetweenPreviousAndCurrentPruningPoints, if_neg hne, hprevious] at hdiff
    cases hdiff
  | ok previous =>
    obtain ⟨hdiff, hkept⟩ := (calculateDiff_shrunk hne hshrunk hprevious).mp hdiff
    exact ⟨previous, diff, hprevious, hdiff, hkept⟩

theorem acceptanceKept_iff : AcceptanceKept pm d d' pruningPoint ↔
    ∃ diff, calculateDiffUsingAcceptanceData pm d' pruningPoint = .ok diff := by
  constructor
  · rintro ⟨previous, chain, diff, hprevious, hchain, hdiff, hkept⟩
    exact ⟨diff, (calculateDiffUsingAcceptanceData_shrunk hne hshrunk hprevious hchain).mpr ⟨hdiff, hkept⟩⟩
  rintro ⟨diff, hdiff⟩
  have hcode := hdiff
  rw [calculateDiffUsingAcceptanceData, if_neg hne] at hcode
  obtain ⟨previous, hprevious, hcode⟩ := bind_eq_ok.mp hcode
  obtain ⟨chain, hchain, -⟩ := bind_eq_ok.mp hcode
  obtain ⟨hdiff, hkept⟩ := (calculateDiffUsingAcceptanceData_shrunk hne hshrunk hprevious hchain).mp hdiff
  exact ⟨previous, chain, diff, hprevious, hchain, hdiff, hkept⟩

/-- What a smaller database still computes, the whole one computes in the same way. -/
theorem utxoSetDiff_shrunk (h : utxoSetDiff pm d' pruningPoint = .ok diff) :
    (DiffsKept pm d d' pruningPoint ∨ AcceptanceKept pm d d' pruningPoint) ∧
      (calculateDiffBetweenPreviousAndCurrentPruningPoints pm d pruningPoint = .ok diff ∨
        calculateDiffUsingAcceptanceData pm d pruningPoint = .ok diff) := by
  unfold utxoSetDiff at h
  cases hchildren : calculateDiffBetweenPreviousAndCurrentPruningPoints pm d' pruningPoint with
  | ok diff' =>
    obtain ⟨previous, diff'', hprevious, hdiff, hkept⟩ := (diffsKept_iff hne hshrunk).mpr ⟨diff', hchildren⟩
    simp only [hchildren] at h
    obtain rfl := Except.ok.inj h
    obtain ⟨hdiff', -⟩ := (calculateDiff_shrunk hne hshrunk hprevious).mp hchildren
    exact ⟨.inl ⟨previous, diff'', hprevious, hdiff, hkept⟩, .inl hdiff'⟩
  | error e =>
    simp only [hchildren] at h
    obtain ⟨previous, chain, diff', hprevious, hchain, hdiff, hkept⟩ :=
      (acceptanceKept_iff hne hshrunk).mpr ⟨diff, h⟩
    obtain ⟨hdiff', -⟩ := (calculateDiffUsingAcceptanceData_shrunk hne hshrunk hprevious hchain).mp h
    exact ⟨.inr ⟨previous, chain, diff', hprevious, hchain, hdiff, hkept⟩, .inr hdiff'⟩

theorem exists_utxoSetDiff (h : DiffsKept pm d d' pruningPoint ∨ AcceptanceKept pm d d' pruningPoint) :
    ∃ diff, utxoSetDiff pm d' pruningPoint = .ok diff := by
  unfold utxoSetDiff
  cases hchildren : calculateDiffBetweenPreviousAndCurrentPruningPoints pm d' pruningPoint with
  | ok diff => exact ⟨diff, rfl⟩
  | error e =>
    obtain h | h := h
    · obtain ⟨diff, hdiff⟩ := (diffsKept_iff hne hshrunk).mp h
      rw [hchildren] at hdiff
      cases hdiff
    · exact (acceptanceKept_iff hne hshrunk).mp h

end

/-- Where the diff can be computed in two ways, both lead from the pruning point UTXO set to the same one. -/
def DiffsAgree (pm : UpdateManager) (d : PruningDatabase) (pruningPoint : DomainHash) : Prop :=
  ∀ diff diff', calculateDiffBetweenPreviousAndCurrentPruningPoints pm d pruningPoint = .ok diff →
    calculateDiffUsingAcceptanceData pm d pruningPoint = .ok diff' →
    (diff'.applyTo fun o => d.pruningPointUTXOSet.lookup o) = diff.applyTo fun o => d.pruningPointUTXOSet.lookup o

theorem DiffsAgree.applyTo_eq {diff' : MutableUTXODiff} (hagree : DiffsAgree pm d pruningPoint)
    (hdiff : utxoSetDiff pm d pruningPoint = .ok diff)
    (hdiff' : calculateDiffBetweenPreviousAndCurrentPruningPoints pm d pruningPoint = .ok diff' ∨
      calculateDiffUsingAcceptanceData pm d pruningPoint = .ok diff') :
    (diff'.applyTo fun o => d.pruningPointUTXOSet.lookup o) =
      diff.applyTo fun o => d.pruningPointUTXOSet.lookup o := by
  unfold utxoSetDiff at hdiff
  cases hchildren : calculateDiffBetweenPreviousAndCurrentPruningPoints pm d pruningPoint with
  | ok diff₁ =>
    simp only [hchildren] at hdiff
    obtain rfl := Except.ok.inj hdiff
    obtain hdiff' | hdiff' := hdiff'
    · rw [Except.ok.inj (hchildren.symm.trans hdiff')]
    · exact hagree _ _ hchildren hdiff'
  | error e =>
    simp only [hchildren] at hdiff
    obtain hdiff' | hdiff' := hdiff'
    · rw [hchildren] at hdiff'
      cases hdiff'
    · rw [Except.ok.inj (hdiff.symm.trans hdiff')]

/-! ## The stops from which the update recovers -/

/-- Genesis has no past, and every tip is above it. -/
def NothingBelow (pm : PruningManager) (tips : List DomainHash) (block : DomainHash) : Prop :=
  pm.stores.parents.lookup block = some [virtualGenesisBlockHash] ∧ ∀ tip ∈ tips, pm.isAncestorOf block tip = true

section
variable (h : Planned pm d pruningPoint diff newTips deleted)
include h

theorem Planned.deleted_nil (hbelow : NothingBelow pm.toPruningManager d.tips pruningPoint) : deleted = [] := by
  have hpruned : (d.tips.filter fun tip => !isInPruningFutureOrInVirtualPast pm.toPruningManager pruningPoint tip) = [] :=
    filter_eq_nil_iff.mpr fun tip htip => by simp [isInPruningFutureOrInVirtualPast, hbelow.2 tip htip]
  have hwalk := h.walk
  unfold deletePastBlocks at hwalk
  obtain ⟨queue₀, hqueue₀, hwalk⟩ := bind_eq_ok.mp hwalk
  obtain ⟨queue, hqueue, hwalk⟩ := bind_eq_ok.mp hwalk
  obtain ⟨blocksToKeep, -, hwalk⟩ := bind_eq_ok.mp hwalk
  obtain ⟨deleted', hdown, hwalk⟩ := bind_eq_ok.mp hwalk
  rw [hpruned] at hqueue₀
  cases hqueue₀
  simp only [pushParents, hbelow.1, if_true] at hqueue
  cases hqueue
  cases hdown
  exact (Prod.mk.inj (Except.ok.inj hwalk)).2.symm

theorem Planned.kept (hne : pruningPoint ≠ pm.genesisHash) (hdiffs : d'.utxoDiffStore = d.utxoDiffStore)
    (hchildren : d'.utxoDiffChildStore = d.utxoDiffChildStore)
    (hacceptance : d'.acceptanceDataStore = d.acceptanceDataStore) :
    DiffsKept pm d d' pruningPoint ∨ AcceptanceKept pm d d' pruningPoint := by
  unfold DiffsKept AcceptanceKept
  rw [hdiffs, hchildren, hacceptance]
  exact (utxoSetDiff_shrunk hne (.refl d) h.calculated).1

theorem Planned.recovered_iff (hflag : d.updatingPruningPointUTXOSet = true) (hagree : DiffsAgree pm d pruningPoint)
    (hgenesis : pruningPoint = pm.genesisHash → NothingBelow pm.toPruningManager d.tips pruningPoint) :
    Recovered pm d (commitDeletion pm newTips deleted (d.written diff)) ↔ pruningPoint = pm.genesisHash ∨
      DiffsKept pm d (commitDeletion pm newTips deleted (d.written diff)) pruningPoint ∨
      AcceptanceKept pm d (commitDeletion pm newTips deleted (d.written diff)) pruningPoint := by
  rw [h.recovered_of_deleted hflag]
  by_cases hne : pruningPoint = pm.genesisHash
  · refine iff_of_true ⟨diff, ?_, diff.applyTo_applyTo _⟩ (.inl hne)
    rw [h.deleted_nil (hgenesis hne), ← h.calculated]
    unfold commitDeletion
    cases pm.isArchivalNode <;> rfl
  obtain ⟨hchildren, hdiffs, hacceptance⟩ := shrunk_commitDeletion pm newTips deleted (d.written diff)
  have hshrunk : d.Shrunk (commitDeletion pm newTips deleted (d.written diff)) := ⟨hchildren, hdiffs, hacceptance⟩
  constructor
  · rintro ⟨diff', hdiff', -⟩
    exact .inr (utxoSetDiff_shrunk hne hshrunk hdiff').1
  intro hkept
  obtain ⟨diff', hdiff'⟩ := exists_utxoSetDiff hne hshrunk (hkept.resolve_left hne)
  refine ⟨diff', hdiff', ?_⟩
  rw [← hagree.applyTo_eq h.calculated (utxoSetDiff_shrunk hne hshrunk hdiff').2]
  exact diff'.applyTo_applyTo _

end

/-- Recovery ends as the uninterrupted run exactly if the flag is cleared, the pruning point is genesis, or what the
diff is computed from is still there. Nothing of it is deleted on an archival node or before the commit. -/
theorem updatePruningPointIfRequired_iff (hflag : d.updatingPruningPointUTXOSet = true)
    (hok : (updatePruningPoint pm).answer d = .ok ())
    (hpoint : lookupOr pm.pruningPointByIndex pm.currentPruningPointIndex .noPreviousPruningPoint = .ok pruningPoint)
    (hgenesis : pruningPoint = pm.genesisHash → NothingBelow pm.toPruningManager d.tips pruningPoint)
    (hagree : DiffsAgree pm d pruningPoint) (hstop : Stops (updatePruningPoint pm) d d') :
    (Recovered pm d d' ↔ d'.updatingPruningPointUTXOSet = false ∨ pruningPoint = pm.genesisHash ∨
      DiffsKept pm d d' pruningPoint ∨ AcceptanceKept pm d d' pruningPoint) ∧
    (pm.isArchivalNode = true → Recovered pm d d') ∧
    (d' = { d with pruningPointUTXOSet := d'.pruningPointUTXOSet } → Recovered pm d d') := by
  obtain ⟨pruningPoint', diff, newTips, deleted, hplan⟩ := planned_of_ok hok
  obtain rfl : pruningPoint = pruningPoint' := Except.ok.inj (hpoint.symm.trans hplan.point)
  have hrest : d' = { d with pruningPointUTXOSet := d'.pruningPointUTXOSet } → pruningPoint = pm.genesisHash ∨
      DiffsKept pm d d' pruningPoint ∨ AcceptanceKept pm d d' pruningPoint := by
    intro hrest
    refine or_iff_not_imp_left.mpr fun hne => ?_
    rw [hrest]
    exact hplan.kept hne rfl rfl rfl
  have hiff : Recovered pm d d' ↔ d'.updatingPruningPointUTXOSet = false ∨ pruningPoint = pm.genesisHash ∨
      DiffsKept pm d d' pruningPoint ∨ AcceptanceKept pm d d' pruningPoint := by
    obtain hwriting | rfl | rfl := hplan.stops hstop
    · exact iff_of_true (hplan.recovered_of_writing hflag hwriting) (.inr (hrest hwriting.rest))
    · have hset := (commitDeletion_pruningPointUTXOSet pm newTips deleted (d.written diff)).2.2.1.trans hflag
      rw [hplan.recovered_iff hflag hagree hgenesis, hset]
      exact (or_iff_right (by decide)).symm
    · exact iff_of_true hplan.recovered_of_finished (.inl rfl)
  refine ⟨hiff, fun harchival => hiff.mpr ?_, fun h => hiff.mpr (.inr (hrest h))⟩
  obtain hwriting | rfl | rfl := hplan.stops hstop
  · exact .inr (hrest hwriting.rest)
  · refine .inr (or_iff_not_imp_left.mpr fun hne => ?_)
    apply hplan.kept hne <;> simp only [commitDeletion, harchival, if_true] <;> rfl
  · exact .inl rfl

end

/-! ## A chain of four blocks -/

def chainCoinbase (id value : ℕ) : DomainTransaction :=
  ⟨0, [], [⟨value, ⟨[], 0⟩⟩], 0, subnetworkIDCoinbase, 0, [], id⟩

def chainAcceptance (block : DomainHash) (tx : DomainTransaction) : AcceptanceData :=
  [⟨block, [⟨tx, 0, true, []⟩]⟩]

def chainManager : UpdateManager where
  genesisHash := 1
  isArchivalNode := false
  stores := ⟨AList.insert 1 [virtualGenesisBlockHash] (AList.insert 2 [1] (AList.insert 3 [2] (AList.insert 4 [3] ∅))),
    ∅, AList.insert 1 ⟨0, 1, none, [], [], ∅⟩ (AList.insert 2 ⟨1, 2, some 1, [1], [], ∅⟩
      (AList.insert 3 ⟨2, 3, some 2, [2], [], ∅⟩ (AList.insert 4 ⟨3, 4, some 3, [3], [], ∅⟩ ∅))), ∅⟩
  virtualParents := [4]
  isAncestorOf a b := decide (a ≤ b)
  anticoneFromVirtualPOV _ := .ok []
  blockWindow _ := .ok []
  shouldSanityCheckPruningUTXOSet := false
  virtualUTXOSet := ∅
  currentPruningPointIndex := 1
  pruningPointByIndex := AList.insert 0 1 (AList.insert 1 3 ∅)
  selectedChain _ _ := .ok [2, 3]
  headerDAAScore := AList.insert 2 1 (AList.insert 3 2 ∅)
  fitsCommitment _ _ := true

def chainDatabase : PruningDatabase where
  pruningPointUTXOSet := ∅
  utxoDiffStore := AList.insert 1 ⟨∅, AList.insert ⟨11, 0⟩ ⟨5, ⟨[], 0⟩, 1, true⟩ ∅⟩
    (AList.insert 2 ⟨∅, AList.insert ⟨12, 0⟩ ⟨7, ⟨[], 0⟩, 2, true⟩ ∅⟩ (AList.insert 3 .new ∅))
  utxoDiffChildStore := AList.insert 1 2 (AList.insert 2 3 (AList.insert 3 4 ∅))
  acceptanceDataStore := AList.insert 2 (chainAcceptance 1 (chainCoinbase 11 5))
    (AList.insert 3 (chainAcceptance 2 (chainCoinbase 12 7)) ∅)
  blockStatusStore := AList.insert 1 .utxoValid (AList.insert 2 .utxoValid (AList.insert 3 .utxoValid ∅))
  tips := [4]
  updatingPruningPointUTXOSet := true

/-- One of the two new entries is written. -/
def chainWritten : PruningDatabase :=
  (updatePruningPoint chainManager chainDatabase).1.head?.getD chainDatabase

theorem updatePruningPointIfRequired_iff_chain : chainWritten.pruningPointUTXOSet.size = 1 ∧
    ((updatePruningPoint chainManager).final chainDatabase).pruningPointUTXOSet.size = 2 ∧
    Recovered chainManager chainDatabase chainWritten := by
  have hagree : DiffsAgree chainManager chainDatabase 3 := by
    intro diff diff' hdiff hdiff'
    have hsame : calculateDiffUsingAcceptanceData chainManager chainDatabase 3 =
        calculateDiffBetweenPreviousAndCurrentPruningPoints chainManager chainDatabase 3 := rfl
    rw [Except.ok.inj (hdiff'.symm.trans (hsame.trans hdiff))]
  exact ⟨by decide +kernel, by decide +kernel, (updatePruningPointIfRequired_iff rfl (by decide +kernel)
    (show lookupOr chainManager.pruningPointByIndex 1 .noPreviousPruningPoint = .ok 3 from rfl) (fun h => absurd h (by decide))
    hagree (mem_cons_of_mem _ (mem_of_mem_head? rfl))).2.2 rfl⟩

/-- Blocks 1 and 2 are deleted. -/
def chainStop : PruningDatabase :=
  (updatePruningPoint chainManager chainDatabase).1.dropLast.getLastD chainDatabase

/-- The update succeeds, and has two new entries; after the stop every start of the node fails. -/
theorem recovery_fails_after_deletion : (updatePruningPoint chainManager).Stops chainDatabase chainStop ∧
      (updatePruningPoint chainManager).answer chainDatabase = .ok () ∧
      (updatePruningPointIfRequired chainManager).answer chainStop = .error (.notFound 2) ∧
      ((updatePruningPointIfRequired chainManager).final chainStop).updatingPruningPointUTXOSet = true ∧
      ((updatePruningPoint chainManager).final chainDatabase).pruningPointUTXOSet.lookup ⟨12, 0⟩ =
        some ⟨7, ⟨[], 0⟩, 2, true⟩ :=
  ⟨stops_dropLast _ _, by decide +kernel⟩

end Kaspad.Pruning
