import Kaspad.Lib.Cache
import Kaspad.Traversal.SelectedChain

/-! # The headers selected chain store

`domain/consensus/datastructures/headersselectedchainstore`: the selected chain of the headers selected
tip as two maps, from index to hash and from hash to index, with a cache in front of each and a key for
the highest index.
-/

namespace Kaspad.HeadersSelectedChain
open Lib Traversal GoMap

inductive ChainStoreError
  /-- `database.ErrNotFound` -/
  | notFound
  /-- "can't stage when there's already staged data" -/
  | alreadyStaged
  | traversal (error : TraversalError)
  | ghostdag (error : Ghostdag.GhostdagError)
  deriving DecidableEq, Repr

structure StagingShard where
  addedByHash : GoMap DomainHash ℕ
  removedByHash : GoMap DomainHash Unit
  addedByIndex : GoMap ℕ DomainHash
  removedByIndex : GoMap ℕ Unit

def StagingShard.empty : StagingShard := ⟨∅, ∅, ∅, ∅⟩

def StagingShard.isStaged (shard : StagingShard) : Bool :=
  shard.addedByHash.size != 0 || shard.removedByHash.size != 0 || shard.addedByIndex.size != 0 ||
    shard.addedByIndex.size != 0

structure Buckets where
  indexByHash : GoMap DomainHash ℕ
  hashByIndex : GoMap ℕ DomainHash
  highestChainBlockIndex : Option ℕ

structure ChainStore where
  cacheByIndex : Cache ℕ DomainHash
  cacheByHash : Cache DomainHash ℕ
  cacheHighestChainBlockIndex : ℕ
  db : Buckets

/-- Which entries the caches evict. -/
structure Victims where
  byHash : GoMap DomainHash ℕ → DomainHash
  byIndex : GoMap ℕ DomainHash → ℕ

variable (v : Victims)

def getIndexByHash (shard : StagingShard) (s : ChainStore) (blockHash : DomainHash) :
    Except ChainStoreError ℕ × ChainStore :=
  match shard.addedByHash.lookup blockHash with
  | some index => (.ok index, s)
  | none =>
    if (shard.removedByHash.lookup blockHash).isSome then (.error .notFound, s)
    else
      match s.cacheByHash.get blockHash with
      | some index => (.ok index, s)
      | none =>
        match s.db.indexByHash.lookup blockHash with
        | none => (.error .notFound, s)
        | some index => (.ok index, { s with cacheByHash := s.cacheByHash.add v.byHash blockHash index })

def getHashByIndex (shard : StagingShard) (s : ChainStore) (index : ℕ) :
    Except ChainStoreError DomainHash × ChainStore :=
  match shard.addedByIndex.lookup index with
  | some blockHash => (.ok blockHash, s)
  | none =>
    if (shard.removedByIndex.lookup index).isSome then (.error .notFound, s)
    else
      match s.cacheByIndex.get index with
      | some blockHash => (.ok blockHash, s)
      | none =>
        match s.db.hashByIndex.lookup index with
        | none => (.error .notFound, s)
        | some blockHash =>
          (.ok blockHash, { s with cacheByIndex := s.cacheByIndex.add v.byIndex index blockHash })

def highestChainBlockIndex (s : ChainStore) : Option ℕ × ChainStore :=
  if s.cacheHighestChainBlockIndex ≠ 0 then (some s.cacheHighestChainBlockIndex, s)
  else
    match s.db.highestChainBlockIndex with
    | none => (none, s)
    | some index => (some index, { s with cacheHighestChainBlockIndex := index })

/-! ## Staging -/

def stageRemoved : List DomainHash → StagingShard → ChainStore → Except ChainStoreError StagingShard × ChainStore
  | [], shard, s => (.ok shard, s)
  | blockHash :: removed, shard, s =>
    match getIndexByHash v shard s blockHash with
    | (.error error, s) => (.error error, s)
    | (.ok index, s) =>
      stageRemoved removed { shard with
        removedByIndex := shard.removedByIndex.insert index ()
        removedByHash := shard.removedByHash.insert blockHash () } s

def stageAdded : List DomainHash → ℕ → StagingShard → StagingShard
  | [], _, shard => shard
  | blockHash :: added, currentIndex, shard =>
    stageAdded added (currentIndex + 1) { shard with
      addedByIndex := shard.addedByIndex.insert currentIndex blockHash
      addedByHash := shard.addedByHash.insert blockHash currentIndex }

def stage (shard : StagingShard) (s : ChainStore) (chainChanges : SelectedChainPath) :
    Except ChainStoreError StagingShard × ChainStore :=
  if shard.isStaged then (.error .alreadyStaged, s)
  else
    match stageRemoved v chainChanges.removed shard s with
    | (.error error, s) => (.error error, s)
    | (.ok shard, s) =>
      let (highest, s) := highestChainBlockIndex s
      let currentIndex := match highest with
        -- `highest - len(Removed) + 1` wraps twice where every block is removed
        | some highest => highest + 1 - chainChanges.removed.length
        | none => 0
      (.ok (stageAdded chainChanges.added currentIndex shard), s)

/-! ## Committing -/

def ChainStore.deleteHash (s : ChainStore) (hash : DomainHash) : ChainStore :=
  { s with
    db := { s.db with indexByHash := s.db.indexByHash.erase hash }
    cacheByHash := s.cacheByHash.remove hash }

def ChainStore.deleteIndex (s : ChainStore) (index : ℕ) : ChainStore :=
  { s with
    db := { s.db with hashByIndex := s.db.hashByIndex.erase index }
    cacheByIndex := s.cacheByIndex.remove index }

def ChainStore.put (s : ChainStore) (hash : DomainHash) (index : ℕ) : ChainStore :=
  { s with
    db := { s.db with
      indexByHash := s.db.indexByHash.insert hash index
      hashByIndex := s.db.hashByIndex.insert index hash }
    cacheByHash := s.cacheByHash.add v.byHash hash index
    cacheByIndex := s.cacheByIndex.add v.byIndex index hash }

def highestAdded (added : List ((_ : DomainHash) × ℕ)) : ℕ :=
  added.foldl (fun highestIndex e => if e.2 > highestIndex then e.2 else highestIndex) 0

def commit (shard : StagingShard) (s : ChainStore) : ChainStore :=
  if shard.isStaged then
    let s := shard.removedByHash.entries.foldl (fun s e => s.deleteHash e.1) s
    let s := shard.removedByIndex.entries.foldl (fun s e => s.deleteIndex e.1) s
    let s := shard.addedByHash.entries.foldl (fun s e => s.put v e.1 e.2) s
    let highestIndex := highestAdded shard.addedByHash.entries
    { s with
      db := { s.db with highestChainBlockIndex := some highestIndex }
      cacheHighestChainBlockIndex := highestIndex }
  else s

/-! ## What reads answer -/

/-- What is cached is what is stored. -/
structure ChainStore.Coherent (s : ChainStore) : Prop where
  byHash : s.cacheByHash.Within fun hash => s.db.indexByHash.lookup hash
  byIndex : s.cacheByIndex.Within fun index => s.db.hashByIndex.lookup index
  highest : s.cacheHighestChainBlockIndex ≠ 0 → s.db.highestChainBlockIndex = some s.cacheHighestChainBlockIndex

def answer {α : Type} : Option α → Except ChainStoreError α
  | some a => .ok a
  | none => .error .notFound

def indexThrough (shard : StagingShard) (db : Buckets) (hash : DomainHash) : Option ℕ :=
  match shard.addedByHash.lookup hash with
  | some index => some index
  | none => if (shard.removedByHash.lookup hash).isSome then none else db.indexByHash.lookup hash

def hashThrough (shard : StagingShard) (db : Buckets) (index : ℕ) : Option DomainHash :=
  match shard.addedByIndex.lookup index with
  | some hash => some hash
  | none => if (shard.removedByIndex.lookup index).isSome then none else db.hashByIndex.lookup index

variable {s : ChainStore}

theorem getIndexByHash_spec (hs : s.Coherent) (shard : StagingShard) (hash : DomainHash) :
    (getIndexByHash v shard s hash).1 = answer (indexThrough shard s.db hash) ∧
      (getIndexByHash v shard s hash).2.Coherent ∧ (getIndexByHash v shard s hash).2.db = s.db := by
  unfold getIndexByHash indexThrough
  cases shard.addedByHash.lookup hash with
  | some index => exact ⟨rfl, hs, rfl⟩
  | none =>
    split_ifs
    · exact ⟨rfl, hs, rfl⟩
    cases hc : s.cacheByHash.get hash with
    | some index =>
      have hdb : s.db.indexByHash.lookup hash = some index := hs.byHash hash index hc
      rw [hdb]
      exact ⟨rfl, hs, rfl⟩
    | none =>
      cases hdb : s.db.indexByHash.lookup hash with
      | none => exact ⟨rfl, hs, rfl⟩
      | some index =>
        exact ⟨rfl, ⟨Cache.Within.add hs.byHash hdb fun _ _ => rfl, hs.byIndex, hs.highest⟩, rfl⟩

theorem getHashByIndex_spec (hs : s.Coherent) (shard : StagingShard) (index : ℕ) :
    (getHashByIndex v shard s index).1 = answer (hashThrough shard s.db index) := by
  unfold getHashByIndex hashThrough
  cases shard.addedByIndex.lookup index with
  | some hash => rfl
  | none =>
    split_ifs
    · rfl
    cases hc : s.cacheByIndex.get index with
    | some hash =>
      have hdb : s.db.hashByIndex.lookup index = some hash := hs.byIndex index hash hc
      rw [hdb]
      rfl
    | none => cases s.db.hashByIndex.lookup index <;> rfl

theorem highestChainBlockIndex_spec (hs : s.Coherent) : (highestChainBlockIndex s).1 = s.db.highestChainBlockIndex ∧
      (highestChainBlockIndex s).2.Coherent ∧ (highestChainBlockIndex s).2.db = s.db := by
  unfold highestChainBlockIndex
  split_ifs with hcache
  · exact ⟨(hs.highest hcache).symm, hs, rfl⟩
  cases hdb : s.db.highestChainBlockIndex with
  | none => exact ⟨rfl, hs, rfl⟩
  | some index => exact ⟨rfl, ⟨hs.byHash, hs.byIndex, fun _ => hdb⟩, rfl⟩

/-! ## What the commit writes -/

def StagingShard.Inverse (shard : StagingShard) : Prop :=
  ∀ hash index, shard.addedByHash.lookup hash = some index ↔ shard.addedByIndex.lookup index = some hash

def ChainStore.MapsCoherent (s : ChainStore) : Prop :=
  (s.cacheByHash.Within fun hash => s.db.indexByHash.lookup hash) ∧
    s.cacheByIndex.Within fun index => s.db.hashByIndex.lookup index

theorem foldl_deleteHash (l : List ((_ : DomainHash) × Unit)) (hs : s.MapsCoherent) :
    (l.foldl (fun s e => s.deleteHash e.1) s).MapsCoherent ∧
      (l.foldl (fun s e => s.deleteHash e.1) s).db.indexByHash = l.foldl (fun db e => db.erase e.1) s.db.indexByHash ∧
      (l.foldl (fun s e => s.deleteHash e.1) s).db.hashByIndex = s.db.hashByIndex := by
  induction l generalizing s with
  | nil => exact ⟨hs, rfl, rfl⟩
  | cons e l ih =>
    refine ih (s := s.deleteHash e.1) ⟨Cache.Within.remove hs.1 fun h hne => ?_, hs.2⟩
    simp [ChainStore.deleteHash, hne]

theorem foldl_deleteIndex (l : List ((_ : ℕ) × Unit)) (hs : s.MapsCoherent) :
    (l.foldl (fun s e => s.deleteIndex e.1) s).MapsCoherent ∧
      (l.foldl (fun s e => s.deleteIndex e.1) s).db.indexByHash = s.db.indexByHash ∧
      (l.foldl (fun s e => s.deleteIndex e.1) s).db.hashByIndex =
        l.foldl (fun db e => db.erase e.1) s.db.hashByIndex := by
  induction l generalizing s with
  | nil => exact ⟨hs, rfl, rfl⟩
  | cons e l ih =>
    refine ih (s := s.deleteIndex e.1) ⟨hs.1, Cache.Within.remove hs.2 fun i hne => ?_⟩
    simp [ChainStore.deleteIndex, hne]

theorem foldl_put (l : List ((_ : DomainHash) × ℕ)) (hs : s.MapsCoherent) :
    (l.foldl (fun s e => s.put v e.1 e.2) s).MapsCoherent ∧ (l.foldl (fun s e => s.put v e.1 e.2) s).db.indexByHash =
        l.foldl (fun db e => db.insert e.1 (id e.2)) s.db.indexByHash ∧
      (l.foldl (fun s e => s.put v e.1 e.2) s).db.hashByIndex =
        l.foldl (fun db e => db.insert e.2 e.1) s.db.hashByIndex := by
  induction l generalizing s with
  | nil => exact ⟨hs, rfl, rfl⟩
  | cons e l ih =>
    refine ih (s := s.put v e.1 e.2) ⟨Cache.Within.add hs.1 ?_ fun h hne => ?_,
      Cache.Within.add hs.2 ?_ fun i hne => ?_⟩
    · simp [ChainStore.put]
    · simp [ChainStore.put, hne]
    · simp [ChainStore.put]
    · simp [ChainStore.put, hne]

/-- After the commit the buckets have what was read through the staging shard. -/
theorem commit_spec (hs : s.Coherent) {shard : StagingShard} (hstaged : shard.isStaged = true)
    (hinverse : shard.Inverse) : (commit v shard s).Coherent ∧
      (∀ hash, (commit v shard s).db.indexByHash.lookup hash = indexThrough shard s.db hash) ∧
      (∀ index, (commit v shard s).db.hashByIndex.lookup index = hashThrough shard s.db index) ∧
      (commit v shard s).db.highestChainBlockIndex = some (highestAdded shard.addedByHash.entries) := by
  obtain ⟨hs₁, hidx₁, hhash₁⟩ := foldl_deleteHash shard.removedByHash.entries ⟨hs.byHash, hs.byIndex⟩
  obtain ⟨hs₂, hidx₂, hhash₂⟩ := foldl_deleteIndex shard.removedByIndex.entries hs₁
  obtain ⟨hs₃, hidx₃, hhash₃⟩ := foldl_put v shard.addedByHash.entries hs₂
  unfold commit
  rw [if_pos hstaged]
  refine ⟨⟨hs₃.1, hs₃.2, fun _ => rfl⟩, fun hash => ?_, fun index => ?_, rfl⟩
  · have hadded := lookup_addMapped id shard.addedByHash
      (shard.removedByHash.entries.foldl (fun db e => db.erase e.1) s.db.indexByHash) hash
    rw [hidx₃, hidx₂, hidx₁]
    refine hadded.trans ?_
    rw [lookup_foldl_erase]
    unfold indexThrough
    cases shard.addedByHash.lookup hash <;> rfl
  rw [hhash₃, hhash₂, hhash₁]
  unfold hashThrough
  ext hash
  -- An index that was added belongs to one hash only.
  have hmem : ∀ e : (_ : DomainHash) × ℕ, e ∈ shard.addedByHash.entries ↔
      shard.addedByIndex.lookup e.2 = some e.1 := fun e =>
    (mem_entries_iff _ e).trans (hinverse e.1 e.2)
  rw [foldl_insert_swap _ (fun e he e' he' heq => by
    rw [hmem] at he he'
    rw [heq] at he
    exact Option.some.inj (he.symm.trans he')), hmem, lookup_foldl_erase]
  cases hadded : shard.addedByIndex.lookup index with
  | some hash' =>
    have hin := (hmem ⟨hash', index⟩).mpr hadded
    exact ⟨fun h => h.elim id fun h => absurd rfl (h.1 _ hin), .inl⟩
  | none =>
    have hnone : ∀ e ∈ shard.addedByHash.entries, e.2 ≠ index := by
      rintro e he rfl
      rw [hmem, hadded] at he
      cases he
    simp only [reduceCtorEq, false_or]
    exact ⟨fun h => h.2, fun h => ⟨hnone, h⟩⟩

end Kaspad.HeadersSelectedChain
