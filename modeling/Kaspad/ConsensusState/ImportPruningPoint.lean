import Kaspad.ConsensusState.PastUTXO
import Kaspad.Traversal.Window

/-! # Recovery of an interrupted UTXO import

`import_pruning_utxo_set.go` of `domain/consensus/processes/consensusstatemanager`, with the writes of
`consensusstatestore/virtual_utxo_set.go` and `pruningstore/imported_pruning_point.go`: after the commit
that sets the import flag, the imported UTXO set is written over the virtual UTXO set and over the
pruning point UTXO set entry by entry, the virtual block is updated in one commit, and the flag is
deleted. The DAG does not change meanwhile, so the data of the virtual block, whose only parent is the
pruning point, is part of the manager.
-/

namespace Kaspad.ConsensusState
open Lib Ghostdag Traversal GoMap

/-! ## The code -/

/-- The parts of `consensusStateManager` that the import reads and does not write. -/
structure ConsensusStateManager (Digest Multiset : Type) extends UTXOManager Digest Multiset where
  multisetStore : GoMap DomainHash Multiset
  utxoDiffChildStore : GoMap DomainHash DomainHash

/-- What the import of a pruning point UTXO set writes. -/
structure ImportDatabase where
  virtualUTXOSet : UTXOCollection
  pruningPointUTXOSet : UTXOCollection
  importedPruningPointUTXOs : UTXOCollection
  utxoDiffStore : GoMap DomainHash MutableUTXODiff
  importingPruningPointUTXOSet : Bool

namespace ImportDatabase

def onVirtualUTXOSet (w : UTXOCollection → UTXOCollection) (d : ImportDatabase) : ImportDatabase :=
  { d with virtualUTXOSet := w d.virtualUTXOSet }

def onPruningPointUTXOSet (w : UTXOCollection → UTXOCollection) (d : ImportDatabase) : ImportDatabase :=
  { d with pruningPointUTXOSet := w d.pruningPointUTXOSet }

end ImportDatabase

inductive ImportError
  /-- "cannot import pruning point UTXO set without calling StartImportingPruningPointUTXOSet first" -/
  | notStarted
  | restore (error : RestoreError)
  | pastUTXO (error : PastUTXOError)
  deriving DecidableEq, Repr

variable {Digest Multiset : Type} [AddCommGroup Multiset] (csm : ConsensusStateManager Digest Multiset)

/-- The diff of the virtual block, and the new one of its selected parent. -/
structure VirtualUpdate where
  virtualUTXODiff : MutableUTXODiff
  selectedTip : DomainHash
  newDiff : MutableUTXODiff
  deriving DecidableEq

def updateVirtual (virtualUTXOSet : UTXOSet) (utxoDiffStore : GoMap DomainHash MutableUTXODiff) :
    Except ImportError VirtualUpdate := do
  let blockGHOSTDAGData ←
    (csm.ghostdagDataStore.get (some virtualBlockHash) false).mapError fun e => .pastUTXO (.ghostdag e)
  match blockGHOSTDAGData.selectedParent with
  | none => throw (.pastUTXO .nilHash)
  | some selectedTip =>
    let selectedParentPastUTXO ←
      (restorePastUTXO utxoDiffStore csm.utxoDiffChildStore selectedTip).mapError .restore
    let (virtualUTXODiff, _, _) ← (calculatePastUTXOAndAcceptanceData csm.toUTXOManager virtualUTXOSet
      csm.multisetStore virtualBlockHash selectedParentPastUTXO).mapError .pastUTXO
    match utxoDiffStore.lookup selectedTip with
    | none => throw (.restore (.notFound selectedTip))
    | some selectedTipUTXODiff =>
      let newDiff ← (diffFrom virtualUTXODiff selectedTipUTXODiff).mapError fun e => .restore (.diff e)
      pure ⟨virtualUTXODiff, selectedTip, newDiff⟩

/-- A diff without a child leaves the stored child as it is. -/
def VirtualUpdate.commit (u : VirtualUpdate) (d : ImportDatabase) : ImportDatabase :=
  { d with
    virtualUTXOSet := u.virtualUTXODiff.writeTo d.virtualUTXOSet
    utxoDiffStore := d.utxoDiffStore.insert u.selectedTip u.newDiff }

open OnDisk

def importPruningPointUTXOSetIntoVirtualUTXOSet : OnDisk ImportDatabase ImportError Unit := do
  let d ← read
  if !d.importingPruningPointUTXOSet then ofExcept (.error .notStarted)
  else writeAll ((GoMap.overwrites d.virtualUTXOSet.keys d.importedPruningPointUTXOs).map
    ImportDatabase.onVirtualUTXOSet)

def commitImportedPruningPointUTXOSet : OnDisk ImportDatabase ImportError Unit := do
  let d ← read
  writeAll ((GoMap.overwrites d.pruningPointUTXOSet.keys d.importedPruningPointUTXOs).map
    ImportDatabase.onPruningPointUTXOSet)

def finishImportingPruningPointUTXOSet (d : ImportDatabase) : ImportDatabase :=
  { d with importingPruningPointUTXOSet := false }

def importVirtualUTXOSetAndPruningPointUTXOSet : OnDisk ImportDatabase ImportError Unit := do
  importPruningPointUTXOSetIntoVirtualUTXOSet
  commitImportedPruningPointUTXOSet
  let d ← read
  let u ← ofExcept (updateVirtual csm (fun o => d.virtualUTXOSet.lookup o) d.utxoDiffStore)
  write u.commit
  write finishImportingPruningPointUTXOSet

def recoverUTXOIfRequired : OnDisk ImportDatabase ImportError Unit := do
  let d ← read
  if !d.importingPruningPointUTXOSet then pure ()
  else importVirtualUTXOSetAndPruningPointUTXOSet csm

/-! ## Writing the imported set over a bucket -/

structure ImportDatabase.Same (d d' : ImportDatabase) : Prop where
  virtualUTXOSet : GoMap.Same d.virtualUTXOSet d'.virtualUTXOSet
  pruningPointUTXOSet : GoMap.Same d.pruningPointUTXOSet d'.pruningPointUTXOSet
  utxoDiffStore : ∀ h, Option.Rel MutableUTXODiff.Same (d.utxoDiffStore.lookup h) (d'.utxoDiffStore.lookup h)
  flag : d.importingPruningPointUTXOSet = d'.importingPruningPointUTXOSet

theorem rel_same_refl (diff : Option MutableUTXODiff) : Option.Rel MutableUTXODiff.Same diff diff := by
  cases diff with
  | none => exact .none
  | some diff => exact .some ⟨.refl _, .refl _⟩

structure ImportDatabase.Kept (d d' : ImportDatabase) : Prop where
  imported : d'.importedPruningPointUTXOs = d.importedPruningPointUTXOs
  utxoDiffStore : d'.utxoDiffStore = d.utxoDiffStore
  flag : d'.importingPruningPointUTXOSet = d.importingPruningPointUTXOSet

variable (d : ImportDatabase)

theorem ImportDatabase.Kept.refl : d.Kept d := ⟨rfl, rfl, rfl⟩

theorem overwrite_same (bucket imported : UTXOCollection) :
    GoMap.Same ((GoMap.overwrites bucket.keys imported).foldl (fun b w => w b) bucket) imported := by
  intro o
  rw [lookup_overwrites]
  by_cases ho : o ∈ bucket.keys
  · simp [ho]
  have hnone := AList.lookup_eq_none.mpr ho
  simp [ho, hnone]

def ImportDatabase.refilled (d : ImportDatabase) : ImportDatabase :=
  { d with
    virtualUTXOSet := (GoMap.overwrites d.virtualUTXOSet.keys d.importedPruningPointUTXOs).foldl
      (fun bucket w => w bucket) d.virtualUTXOSet
    pruningPointUTXOSet := (GoMap.overwrites d.pruningPointUTXOSet.keys d.importedPruningPointUTXOs).foldl
      (fun bucket w => w bucket) d.pruningPointUTXOSet }

section
variable {d d' : ImportDatabase}

theorem importInto_run (hflag : d.importingPruningPointUTXOSet = true) :
    importPruningPointUTXOSetIntoVirtualUTXOSet.answer d = .ok () ∧
      importPruningPointUTXOSetIntoVirtualUTXOSet.final d =
        { d with virtualUTXOSet := d.refilled.virtualUTXOSet } := by
  unfold importPruningPointUTXOSetIntoVirtualUTXOSet
  rw [answer_bind_ok answer_read, final_bind_ok answer_read]
  simp only [final_read, hflag, Bool.not_true, Bool.false_eq_true, if_false, answer_writeAll, final_writeAll, true_and]
  have hwritten := foldl_map_over (g := ImportDatabase.onVirtualUTXOSet)
    (p := fun bucket => { d with virtualUTXOSet := bucket }) (fun _ _ => rfl)
    (overwrites d.virtualUTXOSet.keys d.importedPruningPointUTXOs) d.virtualUTXOSet
  refine hwritten.trans ?_
  rw [hflag]
  rfl

theorem commitImported_run (d : ImportDatabase) : commitImportedPruningPointUTXOSet.answer d = .ok () ∧
      commitImportedPruningPointUTXOSet.final d =
        { d with pruningPointUTXOSet := d.refilled.pruningPointUTXOSet } := by
  unfold commitImportedPruningPointUTXOSet
  rw [answer_bind_ok answer_read, final_bind_ok answer_read]
  simp only [final_read, answer_writeAll, final_writeAll, true_and]
  exact foldl_map_over (g := ImportDatabase.onPruningPointUTXOSet)
    (p := fun bucket => { d with pruningPointUTXOSet := bucket }) (fun _ _ => rfl)
    (overwrites d.pruningPointUTXOSet.keys d.importedPruningPointUTXOs) d.pruningPointUTXOSet

theorem importInto_stops (h : Stops importPruningPointUTXOSetIntoVirtualUTXOSet d d') : d.Kept d' := by
  obtain h | ⟨a, ha, h⟩ := h.bind
  · rw [stops_read.mp h]
    exact .refl d
  obtain rfl : d = a := by simpa using ha
  rw [final_read] at h
  split_ifs at h
  · rw [(stops_ofExcept _).mp h]
    exact .refl d
  refine Stops.writeAll (P := d.Kept) (fun w hw d₁ h₁ => ?_) (.refl d) h
  obtain ⟨w, -, rfl⟩ := List.mem_map.mp hw
  exact ⟨h₁.imported, h₁.utxoDiffStore, h₁.flag⟩

theorem commitImported_stops (h : Stops commitImportedPruningPointUTXOSet d d') : d.Kept d' := by
  obtain h | ⟨a, ha, h⟩ := h.bind
  · rw [stops_read.mp h]
    exact .refl d
  obtain rfl : d = a := by simpa using ha
  rw [final_read] at h
  refine Stops.writeAll (P := d.Kept) (fun w hw d₁ h₁ => ?_) (.refl d) h
  obtain ⟨w, -, rfl⟩ := List.mem_map.mp hw
  exact ⟨h₁.imported, h₁.utxoDiffStore, h₁.flag⟩

theorem refilled_virtualUTXOSet (d : ImportDatabase) :
    (fun o => d.refilled.virtualUTXOSet.lookup o) = fun o => d.importedPruningPointUTXOs.lookup o :=
  funext (overwrite_same d.virtualUTXOSet d.importedPruningPointUTXOs)

theorem refilled_pruningPointUTXOSet (d : ImportDatabase) :
    GoMap.Same d.refilled.pruningPointUTXOSet d.importedPruningPointUTXOs :=
  overwrite_same d.pruningPointUTXOSet d.importedPruningPointUTXOs

end

/-! ## A whole run, and where it may stop -/

def importUpdate (d : ImportDatabase) : Except ImportError VirtualUpdate :=
  updateVirtual csm (fun o => d.importedPruningPointUTXOs.lookup o) d.utxoDiffStore

variable {csm} {d d' : ImportDatabase} (hflag : d.importingPruningPointUTXOSet = true)
include hflag

theorem import_final : (importVirtualUTXOSetAndPruningPointUTXOSet csm).final d = match importUpdate csm d with
      | .error _ => d.refilled
      | .ok u => finishImportingPruningPointUTXOSet (u.commit d.refilled) := by
  obtain ⟨hvirtual, hvirtual'⟩ := importInto_run hflag
  unfold importVirtualUTXOSetAndPruningPointUTXOSet
  rw [final_bind_ok hvirtual, hvirtual']
  obtain ⟨hpruning, hpruning'⟩ := commitImported_run { d with virtualUTXOSet := d.refilled.virtualUTXOSet }
  rw [final_bind_ok hpruning, hpruning', final_bind_ok answer_read, final_read]
  have hupdate : updateVirtual csm (fun o => d.refilled.virtualUTXOSet.lookup o) d.utxoDiffStore =
      importUpdate csm d := by
    rw [refilled_virtualUTXOSet]
    rfl
  change (ofExcept (updateVirtual csm (fun o => d.refilled.virtualUTXOSet.lookup o) d.utxoDiffStore) >>=
    fun u => write u.commit >>= fun _ => write finishImportingPruningPointUTXOSet).final d.refilled = _
  rw [hupdate]
  cases importUpdate csm d with
  | error e => exact final_bind_error (answer_ofExcept _)
  | ok u => exact (final_bind_ok (answer_ofExcept _)).trans (final_bind_ok (answer_write u.commit))

variable (h : Stops (importVirtualUTXOSetAndPruningPointUTXOSet csm) d d')
include h in
theorem import_stops : d.Kept d' ∨ ∃ u, importUpdate csm d = .ok u ∧
      (d' = u.commit d.refilled ∨ d' = finishImportingPruningPointUTXOSet (u.commit d.refilled)) := by
  obtain ⟨hvirtual, hvirtual'⟩ := importInto_run hflag
  obtain ⟨hpruning, hpruning'⟩ := commitImported_run { d with virtualUTXOSet := d.refilled.virtualUTXOSet }
  have hrefilled : d.Kept d.refilled := ⟨rfl, rfl, rfl⟩
  obtain h | ⟨_, -, h⟩ := h.bind
  · exact .inl (importInto_stops h)
  rw [hvirtual'] at h
  obtain h | ⟨_, -, h⟩ := h.bind
  · have hkept := commitImported_stops h
    exact .inl ⟨hkept.imported, hkept.utxoDiffStore, hkept.flag⟩
  rw [hpruning'] at h
  obtain h | ⟨d₁, hd₁, h⟩ := h.bind
  · rw [stops_read.mp h]
    exact .inl hrefilled
  obtain rfl : d.refilled = d₁ := Except.ok.inj hd₁
  rw [final_read] at h
  change Stops (ofExcept (updateVirtual csm (fun o => d.refilled.virtualUTXOSet.lookup o) d.utxoDiffStore) >>=
    fun u => write u.commit >>= fun _ => write finishImportingPruningPointUTXOSet) d.refilled d' at h
  obtain h | ⟨u, hu, h⟩ := h.bind
  · rw [(stops_ofExcept _).mp h]
    exact .inl hrefilled
  rw [answer_ofExcept, refilled_virtualUTXOSet] at hu
  rw [final_ofExcept] at h
  obtain h | ⟨_, -, h⟩ := h.bind
  · obtain rfl | rfl := (stops_write _).mp h
    · exact .inl hrefilled
    · exact .inr ⟨u, hu, .inl rfl⟩
  rw [final_write] at h
  obtain rfl | rfl := (stops_write _).mp h
  · exact .inr ⟨u, hu, .inl rfl⟩
  · exact .inr ⟨u, hu, .inr rfl⟩

omit hflag

theorem recover_final (d : ImportDatabase) : (recoverUTXOIfRequired csm).final d =
      if d.importingPruningPointUTXOSet then (importVirtualUTXOSetAndPruningPointUTXOSet csm).final d else d := by
  unfold recoverUTXOIfRequired
  rw [final_bind_ok answer_read, final_read]
  cases d.importingPruningPointUTXOSet <;> rfl

theorem commit_refilled_lookup (u : VirtualUpdate) (d : ImportDatabase) :
    (fun o => (u.commit d.refilled).virtualUTXOSet.lookup o) =
      u.virtualUTXODiff.applyTo fun o => d.importedPruningPointUTXOs.lookup o := by
  rw [← refilled_virtualUTXOSet d]
  exact u.virtualUTXODiff.lookup_writeTo d.refilled.virtualUTXOSet

include hflag

theorem import_final_same (hflag' : d'.importingPruningPointUTXOSet = true)
    (himported : d'.importedPruningPointUTXOs = d.importedPruningPointUTXOs)
    (hstore : GoMap.Same d'.utxoDiffStore d.utxoDiffStore) :
    ((importVirtualUTXOSetAndPruningPointUTXOSet csm).final d').Same
      ((importVirtualUTXOSetAndPruningPointUTXOSet csm).final d) := by
  have hupdate : importUpdate csm d' = importUpdate csm d := by
    unfold importUpdate updateVirtual restorePastUTXO
    simp only [himported, collectUTXODiffs_congr hstore, hstore _]
  have hbucket : GoMap.Same d'.refilled.pruningPointUTXOSet d.refilled.pruningPointUTXOSet := by
    intro o
    rw [refilled_pruningPointUTXOSet d' o, refilled_pruningPointUTXOSet d o, himported]
  rw [import_final hflag, import_final hflag', hupdate]
  cases importUpdate csm d with
  | error e =>
    have hvirtual := (refilled_virtualUTXOSet d').trans (himported ▸ (refilled_virtualUTXOSet d).symm)
    refine ⟨fun o => congrFun hvirtual o, hbucket, fun h => ?_, hflag'.trans hflag.symm⟩
    change Option.Rel _ (d'.utxoDiffStore.lookup h) (d.utxoDiffStore.lookup h)
    rw [hstore h]
    exact rel_same_refl _
  | ok u =>
    have hvirtual := (commit_refilled_lookup u d').trans (himported ▸ (commit_refilled_lookup u d).symm)
    refine ⟨fun o => congrFun hvirtual o, hbucket, fun h => ?_, rfl⟩
    change Option.Rel _ ((d'.utxoDiffStore.insert u.selectedTip u.newDiff).lookup h)
      ((d.utxoDiffStore.insert u.selectedTip u.newDiff).lookup h)
    rw [lookup_set, lookup_set, hstore h]
    exact rel_same_refl _

include h in
/-- For any database with the flag, with the second update of virtual in the condition. -/
theorem recovers_iff :
    ((recoverUTXOIfRequired csm).final d').Same ((importVirtualUTXOSetAndPruningPointUTXOSet csm).final d) ↔
      d'.importingPruningPointUTXOSet = false ∨ GoMap.Same d'.utxoDiffStore d.utxoDiffStore ∨
        ∃ u, importUpdate csm d' = .ok u ∧
          (u.virtualUTXODiff.applyTo fun o => d'.importedPruningPointUTXOs.lookup o) =
            (fun o => d'.virtualUTXOSet.lookup o) ∧
          Option.Rel MutableUTXODiff.Same (some u.newDiff) (d'.utxoDiffStore.lookup u.selectedTip) := by
  rw [recover_final]
  obtain hkept | ⟨u, hu, rfl | rfl⟩ := import_stops hflag h
  · -- The second run starts from other buckets, which it overwrites.
    have hflag' := hkept.flag.trans hflag
    have hstore : GoMap.Same d'.utxoDiffStore d.utxoDiffStore := fun h => by rw [hkept.utxoDiffStore]
    rw [if_pos hflag']
    exact iff_of_true (import_final_same hflag hflag' hkept.imported hstore) (.inr (.inl hstore))
  · -- The second run starts from the diff that the first one has stored.
    have hflag' : (u.commit d.refilled).importingPruningPointUTXOSet = true := hflag
    have himported : (u.commit d.refilled).importedPruningPointUTXOs = d.importedPruningPointUTXOs := rfl
    rw [if_pos hflag']
    constructor
    · intro hsame
      rw [import_final hflag, hu, import_final hflag'] at hsame
      cases hu' : importUpdate csm (u.commit d.refilled) with
      | error e =>
        rw [hu'] at hsame
        have hcleared : d.importingPruningPointUTXOSet = false := hsame.flag
        rw [hflag] at hcleared
        cases hcleared
      | ok u' =>
        rw [hu'] at hsame
        refine .inr (.inr ⟨u', rfl, ?_, ?_⟩)
        · rw [← commit_refilled_lookup u' (u.commit d.refilled)]
          exact funext hsame.virtualUTXOSet
        have htip := hsame.utxoDiffStore u'.selectedTip
        have hset : (finishImportingPruningPointUTXOSet (u'.commit (u.commit d.refilled).refilled)).utxoDiffStore.lookup
            u'.selectedTip = some u'.newDiff := AList.lookup_insert _
        rw [hset] at htip
        exact htip
    · rintro (hcleared | hstore | ⟨u', hu', hvirtual, htip⟩)
      · rw [hflag'] at hcleared
        cases hcleared
      · exact import_final_same hflag hflag' himported hstore
      rw [import_final hflag, hu, import_final hflag', hu']
      refine ⟨fun o => ?_, fun o => ?_, fun h => ?_, rfl⟩
      · exact congrFun ((commit_refilled_lookup u' _).trans hvirtual) o
      · exact (refilled_pruningPointUTXOSet _ o).trans (refilled_pruningPointUTXOSet d o).symm
      change Option.Rel _ (((u.commit d.refilled).utxoDiffStore.insert u'.selectedTip u'.newDiff).lookup h)
        ((u.commit d.refilled).utxoDiffStore.lookup h)
      rw [lookup_set]
      by_cases hh : h = u'.selectedTip
      · rw [if_pos hh, hh]
        exact htip
      rw [if_neg hh]
      exact rel_same_refl _
  · have hcleared : (finishImportingPruningPointUTXOSet (u.commit d.refilled)).importingPruningPointUTXOSet =
        false := rfl
    rw [if_neg (by simp [hcleared]), import_final hflag, hu]
    exact iff_of_true ⟨.refl _, .refl _, fun h => rel_same_refl _, rfl⟩ (.inl hcleared)

end Kaspad.ConsensusState
