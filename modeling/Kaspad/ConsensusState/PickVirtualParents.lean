import Kaspad.ConsensusState.MergeDepth

/-! # Picking the parents of the virtual block

`domain/consensus/processes/consensusstatemanager/pick_virtual_parents.go`. The selected parent of the
virtual block is the greatest candidate that is UTXO valid; further parents are taken from the other
candidates as long as the merge set stays small, and those that break the bounded merge rule are
removed at the end.
-/

namespace Kaspad.ConsensusState
open Lib Ghostdag Traversal

variable (m : VirtualManager) (rounds : ℕ) (s : State)

/-! ## The heap of candidates -/

abbrev BlockHeap := Array BlockGHOSTDAGDataHashPair

def pushCandidate (candidatesHeap : BlockHeap) (blockHash : DomainHash) : Except VirtualError BlockHeap := do
  let ghostdagData ← s.get blockHash
  pure (BinaryHeap.push downHeapLess candidatesHeap ⟨blockHash, ghostdagData⟩)

def pushCandidates : List DomainHash → BlockHeap → Except VirtualError BlockHeap
  | [], candidatesHeap => pure candidatesHeap
  | blockHash :: blockHashes, candidatesHeap => do
    let candidatesHeap ← pushCandidate s candidatesHeap blockHash
    pushCandidates blockHashes candidatesHeap

/-! ## The selected parent -/

def lookupStatus (blockHash : DomainHash) : Except VirtualError BlockStatus :=
  match s.status.lookup blockHash with
  | some status => pure status
  | none => throw (.notFound blockHash)

def nonHeadersOnlyChildren : List DomainHash → Except VirtualError (List DomainHash)
  | [] => pure []
  | parentChild :: children => do
    if parentChild = virtualBlockHash then nonHeadersOnlyChildren children
    else
      let parentChildStatus ← lookupStatus s parentChild
      let rest ← nonHeadersOnlyChildren children
      pure (if parentChildStatus = .headerOnly then rest else parentChild :: rest)

def pushParents (disqualifiedCandidates : List DomainHash) :
    List DomainHash → BlockHeap → Except VirtualError BlockHeap
  | [], candidatesHeap => pure candidatesHeap
  | parent :: parents, candidatesHeap => do
    let allParentChildren ← (lookupOrFail s.children parent).mapError .ghostdag
    let nonHeadersOnlyParentChildren ← nonHeadersOnlyChildren s allParentChildren
    if nonHeadersOnlyParentChildren.all (· ∈ disqualifiedCandidates) then
      let candidatesHeap ← pushCandidate s candidatesHeap parent
      pushParents disqualifiedCandidates parents candidatesHeap
    else pushParents disqualifiedCandidates parents candidatesHeap

def selectVirtualSelectedParent : ℕ → List DomainHash → BlockHeap → Except VirtualError (DomainHash × BlockHeap)
  | 0, _, _ => throw .running
  | n + 1, disqualifiedCandidates, candidatesHeap =>
    match BinaryHeap.pop downHeapLess candidatesHeap with
    | none => throw .noValidParentCandidates
    | some (⟨selectedParentCandidate, _⟩, candidatesHeap) => do
      let status ← lookupStatus s selectedParentCandidate
      if status = .utxoValid then pure (selectedParentCandidate, candidatesHeap)
      else
        let disqualifiedCandidates := selectedParentCandidate :: disqualifiedCandidates
        let candidateParents ← (lookupOrFail s.stores.parents selectedParentCandidate).mapError .ghostdag
        let candidatesHeap ← pushParents s disqualifiedCandidates candidateParents candidatesHeap
        selectVirtualSelectedParent n disqualifiedCandidates candidatesHeap

/-! ## The other candidates -/

def popCandidates : ℕ → BlockHeap → List DomainHash
  | 0, _ => []
  | n + 1, candidatesHeap =>
    match BinaryHeap.pop downHeapLess candidatesHeap with
    | none => []
    | some (candidate, candidatesHeap) => candidate.hash :: popCandidates n candidatesHeap

/-- The swaps that bring candidates with low blue work to the front. Both indices are in range. -/
def swapCandidates : ℕ → ℕ → ℕ → Array DomainHash → Array DomainHash
  | 0, _, _, candidates => candidates
  | n + 1, i, last, candidates => swapCandidates n (i + 1) (last - 1) (candidates.swapIfInBounds i last)

def prioritizeCandidates (candidates : List DomainHash) : List DomainHash :=
  if candidates.length ≥ m.maxBlockParents then
    let maxParents := m.maxBlockParents - 1
    (swapCandidates (maxParents - maxParents / 2) (maxParents / 2) (candidates.length - 1) candidates.toArray).toList
  else candidates

/-- The increase for a candidate that can be a parent, or another candidate to try. -/
inductive MergeSetIncrease
  | canBeParent (increase : ℕ)
  | newCandidate (hash : DomainHash)
  deriving DecidableEq, Repr

def unvisited : List DomainHash → List DomainHash → List DomainHash
  | _, [] => []
  | visited, parent :: parents =>
    if parent ∈ visited then unvisited visited parents else parent :: unvisited (parent :: visited) parents

def mergeSetIncreaseLoop (selectedVirtualParents : List DomainHash) (mergeSetSize : ℕ) :
    ℕ → List DomainHash → List DomainHash → ℕ → Except VirtualError MergeSetIncrease
  | _, _, [], increase => pure (.canBeParent increase)
  | 0, _, _ :: _, _ => throw .running
  | n + 1, visited, current :: queue, increase => do
    if selectedVirtualParents.any fun parent => m.isAncestorOf current parent then
      mergeSetIncreaseLoop selectedVirtualParents mergeSetSize n visited queue increase
    else if mergeSetSize + (increase + 1) > m.mergeSetSizeLimit then pure (.newCandidate current)
    else
      let parents ← (lookupOrFail s.stores.parents current).mapError .ghostdag
      let new := unvisited visited parents
      mergeSetIncreaseLoop selectedVirtualParents mergeSetSize n (new ++ visited) (queue ++ new) (increase + 1)

def mergeSetIncrease (candidate : DomainHash) (selectedVirtualParents : List DomainHash) (mergeSetSize : ℕ) :
    Except VirtualError MergeSetIncrease := do
  let parents ← (lookupOrFail s.stores.parents candidate).mapError .ghostdag
  mergeSetIncreaseLoop m s selectedVirtualParents mergeSetSize rounds parents parents 1

def selectParents : ℕ → List DomainHash → List DomainHash → ℕ → Except VirtualError (List DomainHash)
  | 0, _, _, _ => throw .running
  | n + 1, candidates, selectedVirtualParents, mergeSetSize =>
    if mergeSetSize < m.mergeSetSizeLimit ∧ selectedVirtualParents.length < m.maxBlockParents then
      match candidates with
      | [] => pure selectedVirtualParents
      | candidate :: candidates => do
        match ← mergeSetIncrease m rounds s candidate selectedVirtualParents mergeSetSize with
        | .canBeParent increase =>
          selectParents n candidates (selectedVirtualParents ++ [candidate]) (mergeSetSize + increase)
        | .newCandidate newCandidate =>
          if candidates.any fun other => m.isAncestorOf other newCandidate then
            selectParents n candidates selectedVirtualParents mergeSetSize
          else
            -- `removeHashesInFutureOf`
            selectParents n ((candidates.filter fun hash => !m.isAncestorOf newCandidate hash) ++ [newCandidate])
              selectedVirtualParents mergeSetSize
    else pure selectedVirtualParents

/-! ## The bounded merge rule -/

/-- The red blocks by which the virtual block would break the bounded merge rule. -/
def badReds : Except VirtualError (List DomainHash) := do
  let virtualMergeDepthRoot ← calculateMergeDepthRoot m rounds s virtualBlockHash
  let potentiallyKosherizingBlocks := nonBoundedMergeDepthViolatingBlues m s.virtual virtualMergeDepthRoot
  pure (s.virtual.mergeSetReds.filter (isBadRed m virtualMergeDepthRoot potentiallyKosherizingBlocks))

def boundedMergeBreakingParents (parents : List DomainHash) : Except VirtualError (List DomainHash) := do
  let s ← setVirtualParents m rounds s parents
  let badReds ← badReds m rounds s
  pure (parents.filter fun parent => badReds.any fun badRed => m.isAncestorOf badRed parent)

def removeParent (selectedVirtualParents : List DomainHash) (breakingParent : DomainHash) : List DomainHash :=
  match selectedVirtualParents.findIdx? (· = breakingParent) with
  | none => selectedVirtualParents
  | some i =>
    match selectedVirtualParents.getLast? with
    | none => selectedVirtualParents
    | some last => (selectedVirtualParents.set i last).dropLast

/-- The first part of `pickVirtualParents`, before the bounded merge rule is asked. -/
def selectVirtualParents (tips : List DomainHash) : Except VirtualError (List DomainHash) := do
  let candidatesHeap ← pushCandidates s tips #[]
  let (virtualSelectedParent, candidatesHeap) ← selectVirtualSelectedParent s rounds [] candidatesHeap
  let candidates := popCandidates (m.maxBlockParents * 3) candidatesHeap
  selectParents m rounds s rounds (prioritizeCandidates m candidates) [virtualSelectedParent] 1

def pickVirtualParents (tips : List DomainHash) : Except VirtualError (List DomainHash) := do
  let selectedVirtualParents ← selectVirtualParents m rounds s tips
  let breakingParents ← boundedMergeBreakingParents m rounds s selectedVirtualParents
  pure (breakingParents.foldl removeParent selectedVirtualParents)

end Kaspad.ConsensusState
