import Kaspad.Sync.AntiPast
import Kaspad.Traversal.Window

/-! # Merge depth

`CheckBoundedMergeDepth` of `domain/consensus/processes/mergedepthmanager/merge_depth_manager.go`, with
the merge depth root and the finality point of `finalitymanager/finality_manager.go` that it needs: a
merged red block has the merge depth root in its past, or is in the past of a merged blue block whose
selected chain has the root.
-/

namespace Kaspad.ConsensusState
open Lib Ghostdag Traversal

inductive BlockStatus
  | invalid
  | utxoValid
  | utxoPendingVerification
  | disqualifiedFromChain
  | headerOnly
  deriving DecidableEq, Repr

inductive VirtualError
  | ghostdag (error : GhostdagError)
  /-- No merge depth root or finality point is stored for the block. -/
  | notFound (hash : DomainHash)
  /-- "Claimed chain ancestor (%s) is not in the selected-parent-chain of highHash (%s)" -/
  | notInSelectedParentChain (lowHash highHash : DomainHash)
  /-- "block is violating bounded merge depth" -/
  | violatingBoundedMergeDepth
  /-- "virtual has no valid parent candidates" -/
  | noValidParentCandidates
  | indexOutOfRange
  | running
  deriving DecidableEq, Repr

/-- The topology, with `FindNextAncestor` of the reachability manager, and the parameters. -/
structure VirtualManager extends toSync : Sync.Manager where
  k : ℕ
  maxBlockParents : ℕ
  mergeDepth : ℕ
  finalityDepth : ℕ

def VirtualManager.ghostdagManager (m : VirtualManager) : Ghostdag.Manager := ⟨m.k, m.genesisHash, m.isAncestorOf⟩

/-- The stores. What they have under `VirtualBlockHash` is `virtual`. -/
structure State where
  stores : Stores
  children : GoMap DomainHash (List DomainHash)
  status : GoMap DomainHash BlockStatus
  mergeDepthRoots : GoMap DomainHash DomainHash
  finalityPoints : GoMap DomainHash DomainHash
  pruningPoint : DomainHash
  virtual : BlockGHOSTDAGData

variable (m : VirtualManager) (rounds : ℕ) (s : State)

def State.get (hash : DomainHash) : Except VirtualError BlockGHOSTDAGData :=
  if hash = virtualBlockHash then pure s.virtual
  else (s.stores.get (some hash) false).mapError .ghostdag

def setVirtualParents (parents : List DomainHash) : Except VirtualError State := do
  let stores := { s.stores with parents := s.stores.parents.insert virtualBlockHash parents }
  let data ← (ghostdag m.ghostdagManager rounds stores virtualBlockHash).mapError .ghostdag
  pure { s with virtual := data }

/-! ## Points on the selected chain -/

def isInChainOf (blockHashA blockHashB selectedParent : DomainHash) : Bool :=
  m.isInSelectedParentChainOf blockHashA (if blockHashB = virtualBlockHash then selectedParent else blockHashB)

def childInSelectedParentChainOf (lowHash highHash selectedParent : DomainHash) :
    Except VirtualError DomainHash :=
  if highHash = virtualBlockHash ∧ lowHash = selectedParent then pure highHash
  else
    let high := if highHash = virtualBlockHash then selectedParent else highHash
    if !m.isInSelectedParentChainOf lowHash high then throw (.notInSelectedParentChain lowHash highHash)
    else
      match m.findNextAncestor high lowHash with
      | none => throw (.notInSelectedParentChain lowHash highHash)
      | some next => pure next

def climbChain (blockHash selectedParent : DomainHash) (requiredBlueScore : ℕ) :
    ℕ → DomainHash → Except VirtualError DomainHash
  | 0, _ => throw .running
  | n + 1, current => do
    let next ← childInSelectedParentChainOf m current blockHash selectedParent
    let nextGHOSTDAGData ← s.get next
    if nextGHOSTDAGData.blueScore ≥ requiredBlueScore then pure current
    else climbChain blockHash selectedParent requiredBlueScore n next

/-- What both calculations share; `stored` is the point of the selected parent. -/
def pointAtDepth (depth : ℕ) (stored : DomainHash → Option DomainHash) (blockHash : DomainHash) :
    Except VirtualError DomainHash := do
  let ghostdagData ← s.get blockHash
  if ghostdagData.blueScore < depth then pure m.genesisHash
  else
    let pruningPointGhostdagData ← s.get s.pruningPoint
    if ghostdagData.blueScore < (pruningPointGhostdagData.blueScore + depth) % 2 ^ 64 then
      pure virtualGenesisBlockHash
    else
      match ghostdagData.selectedParent with
      | none => throw (.ghostdag .nilHash)
      | some selectedParent =>
        if !isInChainOf m s.pruningPoint blockHash selectedParent then pure virtualGenesisBlockHash
        else if selectedParent = m.genesisHash then pure m.genesisHash
        else
          match stored selectedParent with
          | none => throw (.notFound selectedParent)
          | some current =>
            climbChain m s blockHash selectedParent (ghostdagData.blueScore - depth) rounds
              (if current = virtualGenesisBlockHash then s.pruningPoint else current)

def calculateMergeDepthRoot (blockHash : DomainHash) : Except VirtualError DomainHash :=
  pointAtDepth m rounds s m.mergeDepth
    (fun selectedParent => (s.mergeDepthRoots.lookup selectedParent).or (s.finalityPoints.lookup selectedParent))
    blockHash

def calculateFinalityPoint (blockHash : DomainHash) : Except VirtualError DomainHash :=
  pointAtDepth m rounds s m.finalityDepth (fun selectedParent => s.finalityPoints.lookup selectedParent) blockHash

def mergeDepthRoot (blockHash : DomainHash) : Except VirtualError DomainHash :=
  if blockHash = virtualBlockHash then calculateMergeDepthRoot m rounds s blockHash
  else
    match s.mergeDepthRoots.lookup blockHash with
    | some root => pure root
    | none => calculateMergeDepthRoot m rounds s blockHash

def finalityPoint (blockHash : DomainHash) : Except VirtualError DomainHash :=
  if blockHash = virtualBlockHash then calculateFinalityPoint m rounds s blockHash
  else
    match s.finalityPoints.lookup blockHash with
    | some point => pure point
    | none => calculateFinalityPoint m rounds s blockHash

/-! ## The bounded merge rule -/

def nonBoundedMergeDepthViolatingBlues (ghostdagData : BlockGHOSTDAGData) (root : DomainHash) : List DomainHash :=
  ghostdagData.mergeSetBlues.filter fun blue => m.isInSelectedParentChainOf root blue

def isBadRed (root : DomainHash) (blues : List DomainHash) (red : DomainHash) : Bool :=
  !m.isAncestorOf root red && !blues.any fun blue => m.isAncestorOf red blue

def checkBoundedMergeDepth (blockHash : DomainHash) : Except VirtualError Unit := do
  let ghostdagData ← s.get blockHash
  if ghostdagData.selectedParent = none then pure ()
  else
    let root ← mergeDepthRoot m rounds s blockHash
    let _ ← finalityPoint m rounds s blockHash
    if ghostdagData.mergeSetReds.any (isBadRed m root (nonBoundedMergeDepthViolatingBlues m ghostdagData root)) then
      throw .violatingBoundedMergeDepth
    else pure ()

/-! ## Consistent states -/

/-- The stored point is on the selected chain of the block, or `VirtualGenesisBlockHash`. -/
def PointsOnChain (genesisHash : DomainHash) (dag : List Block) (st : Stores)
    (stored : DomainHash → Option DomainHash) : Prop :=
  ∀ h ∈ hashes dag, h ≠ genesisHash → ∃ point, stored h = some point ∧
    (point = virtualGenesisBlockHash ∨ ParentChain.OnChain (chainParent st genesisHash) point h)

/-- The stores have the data of every block, and the answers of the topology are right. -/
structure DagState (m : VirtualManager) (powMax : ℕ) (dag : List Block) (s : State) : Prop where
  validated : Validated m.ghostdagManager powMax dag
  recorded : Recorded m.ghostdagManager dag dag s.stores
  length : dag.length < 2 ^ 64
  k : m.k < 255
  notVirtual : virtualBlockHash ∉ hashes dag
  ancestors : m.ghostdagManager.AncestorsCorrect dag
  chains : m.ChainsCorrect s.stores
  next : m.toSync.ChildrenCorrect s.stores
  children : ∀ h ∈ hashes dag, ∃ l, s.children.lookup h = some l ∧
    ∀ c, c ≠ virtualBlockHash → (c ∈ l ↔ IsParent dag h c)
  status : ∀ h ∈ hashes dag, ∃ status, s.status.lookup h = some status
  headerOnly : ∀ p c, IsParent dag p c → s.status.lookup p = some .headerOnly → s.status.lookup c = some .headerOnly
  roots : PointsOnChain m.genesisHash dag s.stores fun h =>
    (s.mergeDepthRoots.lookup h).or (s.finalityPoints.lookup h)
  points : PointsOnChain m.genesisHash dag s.stores fun h => s.finalityPoints.lookup h
  pruningPoint : s.pruningPoint ∈ hashes dag

section
variable {m s} {powMax : ℕ} {dag : List Block} (hs : DagState m powMax dag s)
include hs

variable {h : DomainHash}

theorem DagState.ne_virtual (hh : h ∈ hashes dag) : h ≠ virtualBlockHash :=
  fun heq => hs.notVirtual (heq ▸ hh)

theorem DagState.get_eq {d : BlockGHOSTDAGData} (hd : s.stores.data.lookup h = some d) : s.get h = .ok d := by
  unfold State.get
  rw [if_neg (hs.ne_virtual (hs.recorded.only h d hd)), Ghostdag.get_eq hd]
  rfl

theorem DagState.withVirtual (d : BlockGHOSTDAGData) : DagState m powMax dag { s with virtual := d } :=
  ⟨hs.validated, hs.recorded, hs.length, hs.k, hs.notVirtual, hs.ancestors, hs.chains, hs.next, hs.children,
    hs.status, hs.headerOnly, hs.roots, hs.points, hs.pruningPoint⟩

theorem DagState.selectedTree : SelectedTree m.genesisHash s.stores :=
  selectedTree_of_recorded hs.validated.toIsDAG hs.recorded hs.length

theorem DagState.known (hh : h ∈ hashes dag) : Known s.stores h :=
  hs.recorded.knows.data h hh

theorem DagState.setVirtualParents_spec (hrounds : dag.length < rounds) {parents : List DomainHash}
    (hjoin : Joinable dag dag parents) (hne : parents ≠ []) :
    ∃ d sp, setVirtualParents m rounds s parents = .ok { s with virtual := d } ∧
      MergeData dag s.stores ⟨virtualBlockHash, parents, 0⟩ d sp := by
  set stores : Stores := { s.stores with parents := s.stores.parents.insert virtualBlockHash parents } with hstores
  have hold := hs.recorded.toProcessed
  have hknows : stores.Knows dag := by
    refine ⟨fun b hb => ?_, hold.knows.bits, hold.knows.data⟩
    rw [hstores, GoMap.lookup_set, if_neg (hs.ne_virtual (mem_hashes hb))]
    exact hold.knows.parents b hb
  have hprocessed : Processed m.ghostdagManager dag dag stores := by
    refine ⟨hknows, hold.only, fun h hh => ?_, hold.work, hold.genesis⟩
    obtain ⟨ds, hchain, hsized⟩ := hold.chain h hh
    exact ⟨ds, hchain.mono fun _ _ hd => hd, hsized⟩
  have hlookup : stores.parents.lookup virtualBlockHash = some parents := by
    rw [hstores, GoMap.lookup_set, if_pos rfl]
  obtain ⟨d, sp, ds, hd, -⟩ := ghostdag_joins (b := ⟨virtualBlockHash, parents, 0⟩) hs.validated.toIsDAG
    hs.ancestors hs.k (List.append_nil dag).symm hprocessed hrounds.le hrounds hjoin hlookup hne
  obtain ⟨sp', hmerge, -⟩ := ghostdag_mergeData (b := ⟨virtualBlockHash, parents, 0⟩) hs.validated.toIsDAG
    hs.ancestors (List.append_nil dag).symm hknows hrounds.le hjoin hlookup hne hd
  refine ⟨d, sp', ?_, ⟨hmerge.selectedParent, hmerge.mem, hmerge.greatest, hmerge.first, hmerge.nodup,
    hmerge.merged, hmerge.sortedBlues, hmerge.sortedReds, hmerge.blueScore⟩⟩
  simp only [setVirtualParents, ← hstores]
  rw [show ghostdag m.ghostdagManager rounds stores virtualBlockHash = .ok d from hd]
  rfl

end

variable {m s} {powMax : ℕ} {dag : List Block} (hs : DagState m powMax dag s) {d : BlockGHOSTDAGData}
  {sp : DomainHash} (hsp : sp ∈ hashes dag)
include hs hsp

theorem DagState.climbChain_returns {required n : ℕ} (hrequired : required ≤ d.blueScore) {current : DomainHash}
    (hchain : ParentChain.OnChain (chainParent s.stores m.genesisHash) current sp)
    (hn : score s.stores sp < score s.stores current + n) :
    ∃ point, climbChain m { s with virtual := d } virtualBlockHash sp required n current = .ok point := by
  induction n generalizing current with
  | zero =>
    have hle := ParentChain.OnChain.rank_le hs.selectedTree.rank hchain
    omega
  | succ n ih =>
    unfold climbChain childInSelectedParentChainOf
    by_cases heq : current = sp
    · refine ⟨current, ?_⟩
      simp only [heq, and_self, if_true, pure, Except.pure, ok_bind, State.get]
      rw [if_pos hrequired]
    have hknown := hs.known hsp
    have hcurrent := hs.selectedTree.known_of_onChain hchain hknown
    have hin := (hs.chains current sp hcurrent hknown).mpr hchain
    obtain ⟨next, hnext, hparent, hchain'⟩ := (hs.next sp current hknown hchain).2 heq
    obtain ⟨dnext, hdnext⟩ := hs.selectedTree.known_of_onChain hchain' hknown
    have hget := (hs.withVirtual d).get_eq hdnext
    have hlt := hs.selectedTree.rank next current hparent
    simp only [heq, and_false, if_false, if_true, hin, Bool.not_true, Bool.false_eq_true, hnext, pure,
      Except.pure, ok_bind, hget]
    split_ifs
    · exact ⟨current, rfl⟩
    · exact ih hchain' (by omega)

theorem DagState.pointAtDepth_returns (hrounds : dag.length < rounds) (hd : d.selectedParent = some sp) {depth : ℕ}
    {stored : DomainHash → Option DomainHash} (hstored : PointsOnChain m.genesisHash dag s.stores stored) :
    ∃ point, pointAtDepth m rounds { s with virtual := d } depth stored virtualBlockHash = .ok point := by
  obtain ⟨dpruning, hdpruning⟩ := hs.known hs.pruningPoint
  have hvirtual : State.get { s with virtual := d } virtualBlockHash = .ok d := if_pos rfl
  have hpruning := (hs.withVirtual d).get_eq hdpruning
  have hscore := Traversal.score_le hs.validated.toIsDAG hs.recorded hs.length hsp
  unfold pointAtDepth
  simp only [hvirtual, hpruning, hd, isInChainOf, ok_bind, if_true]
  split_ifs with hlow hlowPruning hoff hgenesis
  · exact ⟨_, rfl⟩
  · exact ⟨_, rfl⟩
  · exact ⟨_, rfl⟩
  · exact ⟨_, rfl⟩
  obtain ⟨point, hpoint, hon⟩ := hstored sp hsp hgenesis
  rw [hpoint]
  refine hs.climbChain_returns hsp (Nat.sub_le _ _) ?_ (by omega)
  split_ifs with heq
  · -- The pruning point is on the chain of the selected parent.
    exact (hs.chains _ _ (hs.known hs.pruningPoint) (hs.known hsp)).mp (by simpa using hoff)
  · exact hon.resolve_left heq

end Kaspad.ConsensusState
