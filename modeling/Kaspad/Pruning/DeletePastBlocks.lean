import Kaspad.ConsensusState.MergeDepth
import Kaspad.ConsensusState.PastUTXO

/-! # Deletion of the blocks below the pruning point

`deletePastBlocks` of `domain/consensus/processes/pruningmanager/pruningmanager.go`: a walk down the parents
of the pruning point and of the tips that are not in its future, which makes every block header-only that is
not to be kept, and does not go below a block that already was.

What the walk reads of the DAG (parents, GHOSTDAG data, reachability, anticone and block windows) does not
depend on what it deletes and is part of the manager.
-/

namespace Kaspad.Pruning
open Lib Ghostdag Traversal ConsensusState List BinaryHeap Array

inductive PruningError
  | ghostdag (error : GhostdagError)
  | notFound (blockHash : DomainHash)
  | diff (error : DiffError)
  | restore (error : RestoreError)
  /-- "previous pruning point doesn't exist" -/
  | noPreviousPruningPoint
  | notInSelectedChain
  /-- Only blocks with status `StatusUTXOValid` can be restored. -/
  | notUTXOValid
  /-- The UTXO set for the next pruning point does not match its UTXO commitment. -/
  | badUTXOCommitment
  /-- The diff children never end. -/
  | endless
  | running
  deriving DecidableEq, Repr

structure PruningManager where
  genesisHash : DomainHash
  isArchivalNode : Bool
  stores : Stores
  virtualParents : List DomainHash
  isAncestorOf : DomainHash → DomainHash → Bool
  anticoneFromVirtualPOV : DomainHash → Except PruningError (List DomainHash)
  blockWindow : DomainHash → Except PruningError (List DomainHash)

variable (pm : PruningManager)

/-! ## The code -/

abbrev Queue := Array BlockGHOSTDAGDataHashPair

def Queue.hashes (queue : Queue) : List DomainHash := queue.toList.map (·.hash)

def pushSlice : List DomainHash → Queue → Except PruningError Queue
  | [], queue => pure queue
  | blockHash :: blockHashes, queue => do
    let ghostdagData ← (pm.stores.get (some blockHash) false).mapError .ghostdag
    pushSlice blockHashes (BinaryHeap.push downHeapLess queue ⟨blockHash, ghostdagData⟩)

def pushParents (blockHash : DomainHash) (queue : Queue) : Except PruningError Queue :=
  match pm.stores.parents.lookup blockHash with
  | none => .error (.notFound blockHash)
  | some parents => if parents = [virtualGenesisBlockHash] then pure queue else pushSlice pm parents queue

def deleteBlocksDownward (blockStatuses : GoMap DomainHash BlockStatus) (blocksToKeep : List DomainHash) :
    ℕ → Queue → List DomainHash → List DomainHash → Except PruningError (List DomainHash)
  | 0, _, _, _ => .error .running
  | n + 1, queue, visited, deleted =>
    match BinaryHeap.pop downHeapLess queue with
    | none => .ok deleted
    | some (⟨current, _⟩, queue) =>
      if current ∈ visited then deleteBlocksDownward blockStatuses blocksToKeep n queue visited deleted
      else if current ∈ blocksToKeep then do
        let queue ← pushParents pm current queue
        deleteBlocksDownward blockStatuses blocksToKeep n queue (current :: visited) deleted
      else
        match blockStatuses.lookup current with
        | none => .error (.notFound current)
        | some status =>
          if status = .headerOnly then
            deleteBlocksDownward blockStatuses blocksToKeep n queue (current :: visited) deleted
          else do
            let queue ← pushParents pm current queue
            deleteBlocksDownward blockStatuses blocksToKeep n queue (current :: visited) (current :: deleted)

def isInPruningFutureOrInVirtualPast (pruningPoint block : DomainHash) : Bool :=
  pm.isAncestorOf pruningPoint block || pm.virtualParents.any fun parent => pm.isAncestorOf block parent

def calculateBlocksToKeep (pruningPoint : DomainHash) : Except PruningError (List DomainHash) := do
  let pruningPointAnticone ← pm.anticoneFromVirtualPOV pruningPoint
  let pruningPointAndItsAnticone := pruningPointAnticone ++ [pruningPoint]
  let blockWindows ← pruningPointAndItsAnticone.mapM pm.blockWindow
  pure (pruningPointAndItsAnticone ++ blockWindows.flatten)

def walkRounds (queue : Queue) : ℕ :=
  queue.size + (pm.stores.parents.entries.map fun e => e.2.length).sum + 1

/-- `deletePastBlocks` with `pruneTips`: the new tips and the blocks to delete. -/
def deletePastBlocks (blockStatuses : GoMap DomainHash BlockStatus) (dagTips : List DomainHash)
    (pruningPoint : DomainHash) : Except PruningError (List DomainHash × List DomainHash) := do
  let prunedTips := dagTips.filter fun tip => !isInPruningFutureOrInVirtualPast pm pruningPoint tip
  let newTips := dagTips.filter fun tip => isInPruningFutureOrInVirtualPast pm pruningPoint tip
  let queue ← pushSlice pm prunedTips #[]
  let queue ← pushParents pm pruningPoint queue
  let blocksToKeep ← calculateBlocksToKeep pm pruningPoint
  let deleted ← deleteBlocksDownward pm blockStatuses blocksToKeep (walkRounds pm queue) queue [] []
  pure (newTips, deleted)

/-! ## The queue -/

section
variable {pm} {queue queue' : Queue}

theorem compares_true : BinaryHeap.Compares downHeapLess fun _ _ => True :=
  ⟨fun _ _ _ => trivial, fun _ _ _ => trivial, fun _ _ _ _ _ => trivial⟩

theorem isHeap_true (queue : Queue) : BinaryHeap.IsHeap (fun _ _ => True) queue :=
  fun _ _ _ _ _ _ _ _ => trivial

theorem pop_hashes {x : BlockGHOSTDAGDataHashPair}
    (h : BinaryHeap.pop downHeapLess queue = some (x, queue')) : queue.hashes.Perm (x.hash :: queue'.hashes) := by
  have hsize : 0 < queue.size := by
    by_contra hzero
    rw [pop_eq_none (by omega)] at h
    cases h
  obtain ⟨y, rest, hpop, -, -, hperm, -⟩ :=
    pop_spec compares_true (fun _ => trivial) (isHeap_true queue) hsize
  cases Option.some.inj (h.symm.trans hpop)
  exact hperm.map _

theorem hashes_of_pop_none (h : BinaryHeap.pop downHeapLess queue = none) : queue.hashes = [] := by
  by_contra hne
  have hsize : 0 < queue.size := by
    rw [Queue.hashes, map_eq_nil_iff, ← length_eq_zero_iff, length_toList] at hne
    omega
  obtain ⟨y, rest, hpop, -⟩ :=
    pop_spec compares_true (fun _ => trivial) (isHeap_true queue) hsize
  rw [hpop] at h
  cases h

variable {blockHashes : List DomainHash} {b : DomainHash}

theorem pushSlice_ok (h : pushSlice pm blockHashes queue = .ok queue') :
    queue'.hashes.Perm (blockHashes ++ queue.hashes) ∧
      ∀ b ∈ blockHashes, ∃ data, pm.stores.get (some b) false = .ok data := by
  induction blockHashes generalizing queue with
  | nil =>
    cases h
    exact ⟨.refl _, by simp⟩
  | cons blockHash blockHashes ih =>
    obtain ⟨data, hdata, h⟩ := bind_eq_ok.mp h
    obtain ⟨hperm, hall⟩ := ih h
    refine ⟨?_, forall_mem_cons.mpr ⟨⟨data, mapError_eq_ok.mp hdata⟩, hall⟩⟩
    have hpush := (push_spec compares_true (isHeap_true queue) ⟨blockHash, data⟩).2.map (·.hash)
    exact (hperm.trans (hpush.append_left blockHashes)).trans perm_middle

theorem pushSlice_total (h : ∀ b ∈ blockHashes, ∃ data, pm.stores.get (some b) false = .ok data) (queue : Queue) :
    ∃ queue', pushSlice pm blockHashes queue = .ok queue' := by
  induction blockHashes generalizing queue with
  | nil => exact ⟨queue, rfl⟩
  | cons blockHash blockHashes ih =>
    obtain ⟨⟨data, hdata⟩, hall⟩ := forall_mem_cons.mp h
    obtain ⟨queue', hqueue'⟩ := ih hall (BinaryHeap.push downHeapLess queue ⟨blockHash, data⟩)
    exact ⟨queue', by rw [pushSlice, hdata]; exact hqueue'⟩

def Followed (pm : PruningManager) (visited : List DomainHash) (b : DomainHash) : Prop :=
  ∃ parents, pm.stores.parents.lookup b = some parents ∧ (parents = [virtualGenesisBlockHash] ∨
    ∀ p ∈ parents, p ∈ visited ∧ ∃ data, pm.stores.get (some p) false = .ok data)

theorem pushParents_ok (h : pushParents pm b queue = .ok queue') : (∀ x ∈ queue.hashes, x ∈ queue'.hashes) ∧
      ∀ visited, (∀ x ∈ queue'.hashes, x ∈ visited) → Followed pm visited b := by
  unfold pushParents at h
  cases hparents : pm.stores.parents.lookup b with
  | none => simp [hparents] at h
  | some parents =>
    simp only [hparents] at h
    split_ifs at h with honly
    · cases h
      exact ⟨fun x hx => hx, fun visited _ => ⟨parents, hparents, .inl honly⟩⟩
    obtain ⟨hperm, hall⟩ := pushSlice_ok h
    refine ⟨fun x hx => hperm.mem_iff.mpr (mem_append_right _ hx), fun visited hsub => ?_⟩
    exact ⟨parents, hparents, .inr fun p hp =>
      ⟨hsub p (hperm.mem_iff.mpr (mem_append_left _ hp)), hall p hp⟩⟩

theorem pushParents_total {visited : List DomainHash} (h : Followed pm visited b) (queue : Queue)
    (hsub : ∀ x ∈ queue.hashes, x ∈ visited) :
    ∃ queue' parents, pushParents pm b queue = .ok queue' ∧ pm.stores.parents.lookup b = some parents ∧
      (∀ x ∈ queue'.hashes, x ∈ visited) ∧ queue'.size ≤ queue.size + parents.length := by
  obtain ⟨parents, hparents, hall⟩ := h
  by_cases honly : parents = [virtualGenesisBlockHash]
  · exact ⟨queue, parents, by simp [pushParents, hparents, honly, pure, Except.pure], hparents, hsub,
      Nat.le_add_right _ _⟩
  have hall := hall.resolve_left honly
  obtain ⟨queue', hqueue'⟩ := pushSlice_total (fun p hp => (hall p hp).2) queue
  obtain ⟨hperm, -⟩ := pushSlice_ok hqueue'
  refine ⟨queue', parents, by simp [pushParents, hparents, honly, hqueue'], hparents, fun x hx => ?_, ?_⟩
  · obtain hx | hx := mem_append.mp (hperm.mem_iff.mp hx)
    · exact (hall x hx).1
    · exact hsub x hx
  have hlen := hperm.length_eq
  simp only [Queue.hashes, length_map, length_append, length_toList] at hlen
  omega

end

/-! ## The walk -/

variable {pm} {blockStatuses : GoMap DomainHash BlockStatus} {blocksToKeep : List DomainHash}

structure Swept (pm : PruningManager) (blockStatuses : GoMap DomainHash BlockStatus)
    (blocksToKeep deleted visited : List DomainHash) (b : DomainHash) : Prop where
  kept : b ∈ blocksToKeep → Followed pm visited b
  other : b ∉ blocksToKeep → blockStatuses.lookup b = some .headerOnly ∨ b ∈ deleted

variable {n : ℕ} {pruningPoint : DomainHash} {visited deleted : List DomainHash}

/-- What the walk has visited is swept: followed where it is kept, else header-only or deleted. -/
theorem deleteBlocksDownward_ok {queue : Queue} {deleted' : List DomainHash}
    (h : deleteBlocksDownward pm blockStatuses blocksToKeep n queue visited deleted = .ok deleted') :
    ∃ visited', (∀ b ∈ queue.hashes, b ∈ visited') ∧ (∀ b ∈ visited, b ∈ visited') ∧
      (∀ b ∈ deleted, b ∈ deleted') ∧
      ∀ b ∈ visited', b ∈ visited ∨ Swept pm blockStatuses blocksToKeep deleted' visited' b := by
  induction n generalizing queue visited deleted with
  | zero => cases h
  | succ n ih =>
    unfold deleteBlocksDownward at h
    cases hpop : BinaryHeap.pop downHeapLess queue with
    | none =>
      rw [hpop] at h
      cases h
      refine ⟨visited, ?_, fun b hb => hb, fun b hb => hb, fun b hb => .inl hb⟩
      rw [hashes_of_pop_none hpop]
      simp
    | some popped =>
      obtain ⟨⟨current, data⟩, rest⟩ := popped
      have hperm := pop_hashes hpop
      simp only [hpop] at h
      by_cases hvisited : current ∈ visited
      · rw [if_pos hvisited] at h
        obtain ⟨visited', hqueue, hmono, hdeleted, hswept⟩ := ih h
        refine ⟨visited', fun b hb => ?_, hmono, hdeleted, hswept⟩
        obtain rfl | hb := mem_cons.mp (hperm.mem_iff.mp hb)
        · exact hmono _ hvisited
        · exact hqueue b hb
      -- What the round of a new block hands on.
      obtain ⟨queue₁, deleted₁, h, hsub, hmore, hcurrent⟩ : ∃ queue₁ deleted₁,
          deleteBlocksDownward pm blockStatuses blocksToKeep n queue₁ (current :: visited) deleted₁ = .ok deleted' ∧
          (∀ b ∈ Queue.hashes rest, b ∈ Queue.hashes queue₁) ∧ (∀ b ∈ deleted, b ∈ deleted₁) ∧
          ∀ visited', (∀ b ∈ Queue.hashes queue₁, b ∈ visited') → (∀ b ∈ deleted₁, b ∈ deleted') → Swept pm blockStatuses blocksToKeep deleted' visited' current := by
        rw [if_neg hvisited] at h
        split_ifs at h with hkeep
        · obtain ⟨queue₁, hpush, h⟩ := bind_eq_ok.mp h
          obtain ⟨hsub, hfollowed⟩ := pushParents_ok hpush
          exact ⟨_, _, h, hsub, fun b hb => hb, fun visited' hqueue _ =>
            ⟨fun _ => hfollowed visited' hqueue, fun hnot => absurd hkeep hnot⟩⟩
        cases hstatus : blockStatuses.lookup current with
        | none => simp [hstatus] at h
        | some status =>
          simp only [hstatus] at h
          split_ifs at h with hheader
          · exact ⟨_, _, h, fun b hb => hb, fun b hb => hb, fun _ _ _ =>
              ⟨fun hk => absurd hk hkeep, fun _ => .inl (hheader ▸ hstatus)⟩⟩
          obtain ⟨queue₁, hpush, h⟩ := bind_eq_ok.mp h
          exact ⟨_, _, h, (pushParents_ok hpush).1, fun b hb => mem_cons_of_mem _ hb, fun _ _ hdeleted =>
            ⟨fun hk => absurd hk hkeep, fun _ => .inr (hdeleted _ mem_cons_self)⟩⟩
      obtain ⟨visited', hqueue, hmono, hdeleted, hswept⟩ := ih h
      refine ⟨visited', fun b hb => ?_, fun b hb => hmono b (mem_cons_of_mem _ hb),
        fun b hb => hdeleted b (hmore b hb), fun b hb => ?_⟩
      · obtain rfl | hb := mem_cons.mp (hperm.mem_iff.mp hb)
        · exact hmono _ mem_cons_self
        · exact hqueue b (hsub b hb)
      obtain hb | hb := hswept b hb
      · obtain rfl | hb := mem_cons.mp hb
        · exact .inr (hcurrent visited' hqueue hdeleted)
        · exact .inl hb
      · exact .inr hb

def unvisitedParents (parents : GoMap DomainHash (List DomainHash)) (visited : List DomainHash) : ℕ :=
  ((parents.entries.filter fun e => e.1 ∉ visited).map fun e => e.2.length).sum

theorem unvisitedParents_cons {parents : GoMap DomainHash (List DomainHash)} {ps : List DomainHash}
    {b : DomainHash} (hb : b ∉ visited) (hps : parents.lookup b = some ps) :
    unvisitedParents parents (b :: visited) + ps.length = unvisitedParents parents visited := by
  have hmem := (GoMap.mem_entries_iff parents ⟨b, ps⟩).mpr hps
  unfold unvisitedParents
  have hkeys := parents.nodupKeys
  generalize parents.entries = l at hmem hkeys
  induction l with
  | nil => cases hmem
  | cons e l ih =>
    obtain ⟨hnew, hkeys⟩ := nodupKeys_cons.mp hkeys
    obtain rfl | hmem := mem_cons.mp hmem
    · have hrest : (l.filter fun e => e.1 ∉ b :: visited) = l.filter fun e => e.1 ∉ visited := by
        refine filter_congr fun e he => ?_
        have hne : e.1 ≠ b := fun heq => hnew (mem_map.mpr ⟨e, he, heq⟩)
        simp [hne]
      rw [filter_cons_of_neg (by simp), filter_cons_of_pos (by simpa using hb), hrest, map_cons,
        sum_cons]
      exact Nat.add_comm _ _
    have hne : e.1 ≠ b := fun heq => hnew (mem_map.mpr ⟨_, hmem, heq.symm⟩)
    by_cases he : e.1 ∈ visited
    · rw [filter_cons_of_neg (by simp [he]), filter_cons_of_neg (by simpa using he)]
      exact ih hmem hkeys
    rw [filter_cons_of_pos (by simp [hne, he]), filter_cons_of_pos (by simpa using he), map_cons,
      map_cons, sum_cons, sum_cons]
    have := ih hmem hkeys
    omega

theorem unvisitedParents_cons_le (parents : GoMap DomainHash (List DomainHash)) (visited : List DomainHash)
    (b : DomainHash) : unvisitedParents parents (b :: visited) ≤ unvisitedParents parents visited := by
  refine (List.Sublist.map _ (monotone_filter_right _ fun e he => ?_)).sum_le_sum fun _ _ => Nat.zero_le _
  simp only [mem_cons, not_or, decide_eq_true_eq] at he ⊢
  exact he.2

theorem deleteBlocksDownward_idle {visited' : List DomainHash}
    (hall : ∀ b ∈ visited', (b ∈ blocksToKeep → Followed pm visited' b) ∧
      (b ∉ blocksToKeep → blockStatuses.lookup b = some .headerOnly)) {queue : Queue}
    (hqueue : ∀ b ∈ queue.hashes, b ∈ visited') (visited deleted : List DomainHash)
    (hn : queue.size + unvisitedParents pm.stores.parents visited < n) :
    deleteBlocksDownward pm blockStatuses blocksToKeep n queue visited deleted = .ok deleted := by
  induction n generalizing queue visited with
  | zero => omega
  | succ n ih =>
    unfold deleteBlocksDownward
    cases hpop : BinaryHeap.pop downHeapLess queue with
    | none => rfl
    | some popped =>
      obtain ⟨⟨current, data⟩, rest⟩ := popped
      have hperm := pop_hashes hpop
      have hsize : rest.size + 1 = queue.size := by
        have hlen := hperm.length_eq
        simp only [Queue.hashes, length_map, length_cons, length_toList] at hlen
        omega
      have hcurrent := hqueue current (hperm.mem_iff.mpr mem_cons_self)
      have hrest : ∀ b ∈ Queue.hashes rest, b ∈ visited' := fun b hb =>
        hqueue b (hperm.mem_iff.mpr (mem_cons_of_mem _ hb))
      simp only
      split_ifs with hvisited hkeep
      · exact ih hrest visited (by omega)
      · obtain ⟨queue₁, parents, hpush, hparents, hsub, hle⟩ :=
          pushParents_total ((hall current hcurrent).1 hkeep) rest hrest
        rw [hpush, ok_bind]
        have hmeasure := unvisitedParents_cons hvisited hparents
        exact ih hsub _ (by omega)
      · rw [(hall current hcurrent).2 hkeep]
        have hmeasure := unvisitedParents_cons_le pm.stores.parents visited current
        exact ih hrest _ (by omega)

variable {dagTips newTips : List DomainHash}
    (h : deletePastBlocks pm blockStatuses dagTips pruningPoint = .ok (newTips, deleted))

include h

/-- After a stop the second deletion finds nothing left to delete. -/
theorem deletePastBlocks_again {blockStatuses' : GoMap DomainHash BlockStatus}
    (hdeleted : ∀ b ∈ deleted, blockStatuses'.lookup b = some .headerOnly)
    (hothers : ∀ b ∉ deleted, blockStatuses'.lookup b = blockStatuses.lookup b) :
    deletePastBlocks pm blockStatuses' newTips pruningPoint = .ok (newTips, []) := by
  obtain ⟨queue₀, hqueue₀, h⟩ := bind_eq_ok.mp h
  obtain ⟨queue, hqueue, h⟩ := bind_eq_ok.mp h
  obtain ⟨blocksToKeep, hkeep, h⟩ := bind_eq_ok.mp h
  obtain ⟨deleted', hwalk, h⟩ := bind_eq_ok.mp h
  obtain ⟨hnewTips, rfl⟩ := Prod.mk.inj (Except.ok.inj h)
  obtain ⟨visited, hvisited, -, -, hswept⟩ := deleteBlocksDownward_ok hwalk
  have hpruned : (newTips.filter fun tip => !isInPruningFutureOrInVirtualPast pm pruningPoint tip) = [] := by
    rw [← hnewTips]
    simp
  have hnewTips' : (newTips.filter fun tip => isInPruningFutureOrInVirtualPast pm pruningPoint tip) = newTips := by
    rw [← hnewTips]
    simp
  have hall : ∀ b ∈ visited, (b ∈ blocksToKeep → Followed pm visited b) ∧
      (b ∉ blocksToKeep → blockStatuses'.lookup b = some .headerOnly) := by
    intro b hb
    have hb := (hswept b hb).resolve_left (by simp)
    refine ⟨hb.kept, fun hnot => ?_⟩
    by_cases hmem : b ∈ deleted'
    · exact hdeleted b hmem
    · exact (hothers b hmem).trans ((hb.other hnot).resolve_right hmem)
  obtain ⟨queue₁, parents, hpush, -, hsub, -⟩ :=
    pushParents_total ((pushParents_ok hqueue).2 visited hvisited) #[] (by simp [Queue.hashes])
  unfold deletePastBlocks
  simp only [hpruned, hnewTips']
  have hidle : deleteBlocksDownward pm blockStatuses' blocksToKeep (walkRounds pm queue₁) queue₁ [] [] = .ok [] :=
    deleteBlocksDownward_idle hall hsub [] [] (by simp [walkRounds, unvisitedParents])
  rw [pushSlice]
  change (pushParents pm pruningPoint #[] >>= _) = _
  rw [hpush, ok_bind, hkeep, ok_bind, hidle]
  rfl

end Kaspad.Pruning
