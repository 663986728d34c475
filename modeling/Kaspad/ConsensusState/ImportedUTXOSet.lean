import Kaspad.ConsensusState.ImportPruningPoint
import Kaspad.ConsensusState.UTXOValid

/-! # The UTXO set received from a peer

`ClearImportedPruningPointData` and `AppendImportedPruningPointUTXOs` of `pruningmanager.go`, with the writes
of `pruningstore/imported_pruning_point.go`, and the commitment check of `importPruningPointUTXOSet`. The
commitment is accumulated over every pair that was sent, while the bucket keeps one entry per outpoint: a
set of pairs that passes the check has no entry that was overwritten.
-/

namespace Kaspad.ConsensusState
open Lib Ghostdag List GoMap

/-! ## The code -/

/-- What the appended chunks have left in the pruning store. -/
structure ImportedData (Multiset : Type) where
  importedPruningPointMultiset : Option Multiset
  importedPruningPointUTXOs : UTXOCollection

inductive ImportedDataError
  /-- `database.ErrNotFound`: no chunk was appended. -/
  | notFound
  /-- `ErrBadPruningPointUTXOSet` -/
  | badPruningPointUTXOSet (expected got : DomainHash)
  deriving DecidableEq, Repr

variable {Digest Multiset : Type}

def clearImportedPruningPointData (data : ImportedData Multiset) : ImportedData Multiset where
  importedPruningPointMultiset := none
  importedPruningPointUTXOs :=
    data.importedPruningPointUTXOs.keys.foldl (fun bucket key => bucket.erase key) data.importedPruningPointUTXOs

variable [AddCommGroup Multiset] (m : UTXOManager Digest Multiset)

def appendImportedPruningPointUTXOs (data : ImportedData Multiset) (pairs : List (DomainOutpoint × UTXOEntry)) :
    ImportedData Multiset where
  importedPruningPointMultiset := some (pairs.foldl
    (fun multiset pair => multiset + m.element (serializeUTXO pair.2 pair.1))
    (data.importedPruningPointMultiset.getD 0))
  importedPruningPointUTXOs :=
    pairs.foldl (fun bucket pair => bucket.insert pair.1 pair.2) data.importedPruningPointUTXOs

def checkImportedMultiset (utxoCommitment : DomainHash) (data : ImportedData Multiset) :
    Except ImportedDataError Multiset :=
  match data.importedPruningPointMultiset with
  | none => .error .notFound
  | some multiset =>
    if utxoCommitment ≠ m.multisetHash multiset then
      .error (.badPruningPointUTXOSet utxoCommitment (m.multisetHash multiset))
    else .ok multiset

/-- Clear what an earlier import has left, then append the chunks. -/
def receiveUTXOs (data : ImportedData Multiset) (chunks : List (List (DomainOutpoint × UTXOEntry))) :
    ImportedData Multiset :=
  chunks.foldl (appendImportedPruningPointUTXOs m) (clearImportedPruningPointData data)

/-! ## What was received -/

def utxoBytes (pairs : List (DomainOutpoint × UTXOEntry)) : List (List UInt8) :=
  pairs.map fun pair => serializeUTXO pair.2 pair.1

/-- The multiset of the elements, in any order. -/
def multisetOf (bytes : List (List UInt8)) : Multiset := (bytes.map m.element).sum

def pairsOf (S : UTXOCollection) : List (DomainOutpoint × UTXOEntry) := S.entries.map fun e => (e.1, e.2)

theorem mem_pairsOf {S : UTXOCollection} {o : DomainOutpoint} {e : UTXOEntry} :
    (o, e) ∈ pairsOf S ↔ S.lookup o = some e := by
  rw [pairsOf, mem_map]
  constructor
  · rintro ⟨entry, hentry, heq⟩
    cases heq
    exact (mem_entries_iff S entry).mp hentry
  · exact fun h => ⟨⟨o, e⟩, (mem_entries_iff S ⟨o, e⟩).mpr h, rfl⟩

variable (data : ImportedData Multiset)

omit [AddCommGroup Multiset] in
theorem clear_lookup (o : DomainOutpoint) :
    (clearImportedPruningPointData data).importedPruningPointUTXOs.lookup o = none := by
  refine (lookup_deletes id _ data.importedPruningPointUTXOs o).trans ?_
  rw [map_id]
  by_cases ho : o ∈ data.importedPruningPointUTXOs.keys
  · rw [if_pos ho]
  rw [if_neg ho]
  exact AList.lookup_eq_none.mpr ho

theorem foldl_element (pairs : List (DomainOutpoint × UTXOEntry)) (start : Multiset) :
    pairs.foldl (fun multiset pair => multiset + m.element (serializeUTXO pair.2 pair.1)) start =
      start + multisetOf m (utxoBytes pairs) := by
  induction pairs generalizing start with
  | nil => simp [multisetOf, utxoBytes]
  | cons pair pairs ih =>
    rw [foldl_cons, ih, add_assoc]
    rfl

theorem multisetOf_append (bytes bytes' : List (List UInt8)) :
    multisetOf m (bytes ++ bytes') = multisetOf m bytes + multisetOf m bytes' := by
  rw [multisetOf, map_append, sum_append]
  rfl

variable (chunks : List (List (DomainOutpoint × UTXOEntry)))

theorem bucket_appendAll : (chunks.foldl (appendImportedPruningPointUTXOs m) data).importedPruningPointUTXOs =
      chunks.flatten.foldl (fun bucket pair => bucket.insert pair.1 pair.2) data.importedPruningPointUTXOs := by
  induction chunks generalizing data with
  | nil => rfl
  | cons chunk chunks ih =>
    rw [foldl_cons, ih, flatten_cons, foldl_append]
    rfl

theorem multiset_appendAll :
    (chunks.foldl (appendImportedPruningPointUTXOs m) data).importedPruningPointMultiset.getD 0 =
      data.importedPruningPointMultiset.getD 0 + multisetOf m (utxoBytes chunks.flatten) := by
  induction chunks generalizing data with
  | nil => simp [multisetOf, utxoBytes]
  | cons chunk chunks ih =>
    have hchunk : (appendImportedPruningPointUTXOs m data chunk).importedPruningPointMultiset.getD 0 =
        data.importedPruningPointMultiset.getD 0 + multisetOf m (utxoBytes chunk) := foldl_element m chunk _
    have hbytes : utxoBytes (chunk ++ chunks.flatten) = utxoBytes chunk ++ utxoBytes chunks.flatten :=
      map_append
    rw [foldl_cons, ih, hchunk, flatten_cons, hbytes, multisetOf_append, add_assoc]

/-! ## A passing check -/

theorem hash_of_check {utxoCommitment : DomainHash} {data : ImportedData Multiset}
    {chunks : List (List (DomainOutpoint × UTXOEntry))} {multiset : Multiset}
    (h : checkImportedMultiset m utxoCommitment (receiveUTXOs m data chunks) = .ok multiset) :
    utxoCommitment = m.multisetHash (multisetOf m (utxoBytes chunks.flatten)) := by
  have hsent : (receiveUTXOs m data chunks).importedPruningPointMultiset.getD 0 =
      multisetOf m (utxoBytes chunks.flatten) := (multiset_appendAll m _ chunks).trans (zero_add _)
  unfold checkImportedMultiset at h
  cases hmultiset : (receiveUTXOs m data chunks).importedPruningPointMultiset with
  | none => rw [hmultiset] at h; cases h
  | some stored =>
    rw [hmultiset] at h hsent
    dsimp only at h
    by_cases hne : utxoCommitment ≠ m.multisetHash stored
    · rw [if_pos hne] at h
      cases h
    rw [← hsent]
    exact not_not.mp hne

theorem bucket_same {pairs : List (DomainOutpoint × UTXOEntry)} {S bucket : UTXOCollection}
    (hempty : ∀ o, bucket.lookup o = none) (hpairs : ∀ pair ∈ pairs, InRange pair.1 pair.2)
    (hS : ∀ o e, S.lookup o = some e → InRange o e) (hbytes : (utxoBytes pairs).Perm (utxoBytes (pairsOf S))) :
    GoMap.Same (pairs.foldl (fun bucket pair => bucket.insert pair.1 pair.2) bucket) S := by
  have hmem : ∀ o e, (o, e) ∈ pairs ↔ S.lookup o = some e := by
    intro o e
    constructor
    · intro hpair
      have hsent := hbytes.subset (mem_map.mpr ⟨(o, e), hpair, rfl⟩)
      obtain ⟨⟨o', e'⟩, hpair', heq⟩ := mem_map.mp hsent
      have hlookup := mem_pairsOf.mp hpair'
      obtain ⟨rfl, rfl⟩ := serializeUTXO_injective (hS o' e' hlookup) (hpairs _ hpair) heq
      exact hlookup
    · intro hlookup
      have hcommitted := hbytes.symm.subset (mem_map.mpr ⟨(o, e), mem_pairsOf.mpr hlookup, rfl⟩)
      obtain ⟨⟨o', e'⟩, hpair', heq⟩ := mem_map.mp hcommitted
      obtain ⟨rfl, rfl⟩ := serializeUTXO_injective (hpairs _ hpair') (hS o e hlookup) heq
      exact hpair'
  intro o
  cases hlookup : S.lookup o with
  | some e =>
    refine lookup_puts_of_mem ?_ (mem_map.mpr ⟨(o, e), (hmem o e).mpr hlookup, rfl⟩)
    rintro ⟨o', e'⟩ hpair rfl
    exact Option.some.inj (((hmem _ e').mp hpair).symm.trans hlookup)
  | none =>
    rw [lookup_puts_of_notMem, hempty]
    intro ho
    obtain ⟨⟨o', e'⟩, hpair, rfl⟩ := mem_map.mp ho
    rw [(hmem _ e').mp hpair] at hlookup
    cases hlookup

/-- The multisets of two lists of bytes have one hash only if they are the same lists up to order. -/
def NoCollision (bytes bytes' : List (List UInt8)) : Prop :=
  m.multisetHash (multisetOf m bytes) = m.multisetHash (multisetOf m bytes') → bytes.Perm bytes'

/-- A received set that passes the check against the commitment to `S` is `S`, wherever it is written. -/
theorem receiveUTXOs_eq_committed {chunks : List (List (DomainOutpoint × UTXOEntry))} {S : UTXOCollection}
    {utxoCommitment : DomainHash} {data : ImportedData Multiset} {d : ImportDatabase} {multiset : Multiset}
    (hsent : ∀ chunk ∈ chunks, ∀ pair ∈ chunk, InRange pair.1 pair.2) (hS : ∀ o e, S.lookup o = some e → InRange o e)
    (hcommitment : utxoCommitment = m.multisetHash (multisetOf m (utxoBytes (pairsOf S))))
    (hcollision : NoCollision m (utxoBytes chunks.flatten) (utxoBytes (pairsOf S)))
    (hcheck : checkImportedMultiset m utxoCommitment (receiveUTXOs m data chunks) = .ok multiset)
    (himported : d.importedPruningPointUTXOs = (receiveUTXOs m data chunks).importedPruningPointUTXOs)
    (hflag : d.importingPruningPointUTXOSet = true) :
    GoMap.Same (receiveUTXOs m data chunks).importedPruningPointUTXOs S ∧
      importPruningPointUTXOSetIntoVirtualUTXOSet.answer d = .ok () ∧
      let d₁ := importPruningPointUTXOSetIntoVirtualUTXOSet.final d
      GoMap.Same d₁.virtualUTXOSet S ∧ commitImportedPruningPointUTXOSet.answer d₁ = .ok () ∧
      GoMap.Same (commitImportedPruningPointUTXOSet.final d₁).virtualUTXOSet S ∧
      GoMap.Same (commitImportedPruningPointUTXOSet.final d₁).pruningPointUTXOSet S := by
  have hbucket : GoMap.Same (receiveUTXOs m data chunks).importedPruningPointUTXOs S := by
    rw [receiveUTXOs, bucket_appendAll]
    refine bucket_same (clear_lookup data) (fun pair hpair => ?_) hS (hcollision ?_)
    · obtain ⟨chunk, hchunk, hpair⟩ := mem_flatten.mp hpair
      exact hsent chunk hchunk pair hpair
    · exact (hash_of_check m hcheck).symm.trans hcommitment
  obtain ⟨hanswer, hfinal⟩ := importInto_run hflag
  have hvirtual : GoMap.Same d.refilled.virtualUTXOSet S :=
    (overwrite_same d.virtualUTXOSet d.importedPruningPointUTXOs).trans (himported ▸ hbucket)
  have hpruning : GoMap.Same d.refilled.pruningPointUTXOSet S :=
    (refilled_pruningPointUTXOSet d).trans (himported ▸ hbucket)
  refine ⟨hbucket, hanswer, ?_⟩
  rw [hfinal]
  obtain ⟨hcommit, hcommitted⟩ := commitImported_run { d with virtualUTXOSet := d.refilled.virtualUTXOSet }
  refine ⟨hvirtual, hcommit, ?_⟩
  rw [hcommitted]
  exact ⟨hvirtual, hpruning⟩

/-! ## A set in two chunks -/

def samplePairs : List (DomainOutpoint × UTXOEntry) :=
  [(⟨7, 0⟩, ⟨100, ⟨[], 0⟩, 5, false⟩), (⟨7, 1⟩, ⟨200, ⟨[1], 0⟩, 5, true⟩)]

def sampleSet : UTXOCollection := samplePairs.foldr (fun pair S => S.insert pair.1 pair.2) ∅

theorem samplePairs_inRange : ∀ pair ∈ samplePairs, InRange pair.1 pair.2 := by
  simp only [samplePairs, forall_mem_cons, not_mem_nil, false_implies, implies_true, and_true]
  exact ⟨⟨by decide, by decide, by decide, by decide, by decide, by decide⟩,
    ⟨by decide, by decide, by decide, by decide, by decide, by decide⟩⟩

/-- The multisets are sums of the bytes read as numbers. -/
def summingManager : UTXOManager DomainTransaction ℤ :=
  { sampleManager with
    element := fun bytes => bytes.foldr (fun byte sum => byte.toNat + 256 * sum) 0
    multisetHash := Int.toNat }

theorem receiveUTXOs_samplePairs :
    GoMap.Same (receiveUTXOs summingManager ⟨none, ∅⟩ [samplePairs.drop 1, [], samplePairs.take 1]).importedPruningPointUTXOs
      sampleSet := by
  have hcheck : checkImportedMultiset summingManager
      (summingManager.multisetHash (multisetOf summingManager (utxoBytes (pairsOf sampleSet))))
      (receiveUTXOs summingManager ⟨none, ∅⟩ [samplePairs.drop 1, [], samplePairs.take 1]) =
        .ok (multisetOf summingManager (utxoBytes samplePairs)) := by
    decide +kernel
  refine (receiveUTXOs_eq_committed summingManager (S := sampleSet) (d := ⟨∅, sampleSet, _, ∅, true⟩) ?_ ?_ rfl ?_
    hcheck rfl rfl).1
  · intro chunk hchunk pair hpair
    have hsent : pair ∈ [samplePairs.drop 1, [], samplePairs.take 1].flatten :=
      mem_flatten.mpr ⟨chunk, hchunk, hpair⟩
    exact samplePairs_inRange pair ((List.Perm.swap _ _ []).subset hsent)
  · intro o e h
    have hmem : (o, e) ∈ samplePairs := (mem_pairsOf (S := sampleSet)).mpr h
    exact samplePairs_inRange (o, e) hmem
  · intro _
    exact List.Perm.swap _ _ []

end Kaspad.ConsensusState
