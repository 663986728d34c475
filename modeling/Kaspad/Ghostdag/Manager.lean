import Kaspad.Difficulty
import Kaspad.Lib.Meets
import Kaspad.Transaction

/-! # The GHOSTDAG manager

`ghostdag.go`, `mergeset.go` and `compare.go` of `domain/consensus/processes/ghostdagmanager`. The
stores that the manager reads are finite maps; `IsAncestorOf` of the DAG topology manager is a field
of the manager. Loops that walk the DAG take a number of rounds and report `running` when it does not
suffice.
-/

namespace Kaspad.Ghostdag
open Lib

def virtualGenesisBlockHash : DomainHash := 0xfe * ((2 ^ 256 - 1) / 0xff)

structure BlockGHOSTDAGData where
  blueScore : ℕ
  blueWork : ℕ
  selectedParent : Option DomainHash
  mergeSetBlues : List DomainHash
  mergeSetReds : List DomainHash
  bluesAnticoneSizes : GoMap DomainHash ℕ

inductive GhostdagError
  | notFound (hash : DomainHash)
  | nilHash
  | anticoneLargerThanK
  | notInBlueSet (block : DomainHash)
  | running
  deriving DecidableEq, Repr

/-- Parents of each block, `Bits` of each header, and the GHOSTDAG data with and without the trusted flag. -/
structure Stores where
  parents : GoMap DomainHash (List DomainHash)
  bits : GoMap DomainHash ℕ
  data : GoMap DomainHash BlockGHOSTDAGData
  trustedData : GoMap DomainHash BlockGHOSTDAGData

structure Manager where
  k : ℕ
  genesisHash : DomainHash
  isAncestorOf : DomainHash → DomainHash → Bool

def toKType (n : ℕ) : ℕ := n % 256

def lookupOrFail {V : Type} (store : GoMap DomainHash V) (hash : DomainHash) :
    Except GhostdagError V :=
  match store.lookup hash with
  | some v => pure v
  | none => throw (.notFound hash)

def Stores.get (st : Stores) (hash : Option DomainHash) (isTrustedData : Bool) :
    Except GhostdagError BlockGHOSTDAGData :=
  match hash with
  | none => throw .nilHash
  | some hash => lookupOrFail (if isTrustedData then st.trustedData else st.data) hash

/-! ## Comparing blocks -/

def isLess (hashA : DomainHash) (dataA : BlockGHOSTDAGData) (hashB : DomainHash) (dataB : BlockGHOSTDAGData) : Bool :=
  if dataA.blueWork < dataB.blueWork then true
  else if dataB.blueWork < dataA.blueWork then false
  else decide (hashA < hashB)

def chooseSelectedParentLoop (st : Stores) :
    List DomainHash → DomainHash → BlockGHOSTDAGData → Except GhostdagError DomainHash
  | [], selectedParent, _ => pure selectedParent
  | blockHash :: blockHashes, selectedParent, selectedParentData => do
    let blockData ← st.get blockHash false
    if isLess selectedParent selectedParentData blockHash blockData then
      chooseSelectedParentLoop st blockHashes blockHash blockData
    else chooseSelectedParentLoop st blockHashes selectedParent selectedParentData

def chooseSelectedParent (st : Stores) (first : DomainHash) (others : List DomainHash) :
    Except GhostdagError DomainHash := do
  let data ← st.get first false
  chooseSelectedParentLoop st (first :: others) first data

def less (st : Stores) (blockHashA blockHashB : DomainHash) : Except GhostdagError Bool := do
  let chosenSelectedParent ← chooseSelectedParent st blockHashA [blockHashB]
  pure (chosenSelectedParent == blockHashB)

def findSelectedParent (st : Stores) : List DomainHash → Option DomainHash → Except GhostdagError (Option DomainHash)
  | [], selectedParent => pure selectedParent
  | hash :: parentHashes, none => findSelectedParent st parentHashes (some hash)
  | hash :: parentHashes, some selectedParent => do
    let isHashBigger ← less st selectedParent hash
    findSelectedParent st parentHashes (some (if isHashBigger then hash else selectedParent))

/-! ## The merge set -/

/-- The variables of the loop; `mergeSetMap` holds the hashes of the slice. -/
structure MergeSetState where
  mergeSetSlice : List DomainHash
  selectedParentPast : List DomainHash
  queue : List DomainHash

variable (m : Manager) (rounds : ℕ) (st : Stores)

def visitParents (selectedParent : DomainHash) : List DomainHash → MergeSetState → MergeSetState
  | [], s => s
  | parent :: parents, s =>
    if parent ∈ s.mergeSetSlice then visitParents selectedParent parents s
    else if parent ∈ s.selectedParentPast then visitParents selectedParent parents s
    else if m.isAncestorOf parent selectedParent then
      visitParents selectedParent parents
        { s with selectedParentPast := parent :: s.selectedParentPast }
    else
      visitParents selectedParent parents
        { s with mergeSetSlice := s.mergeSetSlice ++ [parent], queue := s.queue ++ [parent] }

def mergeSetLoop (selectedParent : DomainHash) : ℕ → MergeSetState → Except GhostdagError (List DomainHash)
  | _, ⟨mergeSetSlice, _, []⟩ => pure mergeSetSlice
  | 0, ⟨_, _, _ :: _⟩ => throw .running
  | n + 1, ⟨mergeSetSlice, selectedParentPast, current :: queue⟩ => do
    let currentParents ← lookupOrFail st.parents current
    mergeSetLoop selectedParent n
      (visitParents m selectedParent currentParents ⟨mergeSetSlice, selectedParentPast, queue⟩)

/-- The comparisons look up both blocks, so that with two blocks or more all data is needed. -/
def sortMergeSet (mergeSetSlice : List DomainHash) : Except GhostdagError (List DomainHash) :=
  if mergeSetSlice.length < 2 then pure mergeSetSlice
  else do
    let blocks ← mergeSetSlice.mapM fun hash => do
      let data ← st.get (some hash) false
      pure (hash, data)
    pure ((blocks.insertionSort fun a b => isLess b.1 b.2 a.1 a.2 = false).map Prod.fst)

def mergeSetWithoutSelectedParent (selectedParent : DomainHash) (blockParents : List DomainHash) :
    Except GhostdagError (List DomainHash) := do
  let parents := blockParents.filter (· ≠ selectedParent)
  let mergeSetSlice ← mergeSetLoop m st selectedParent rounds ⟨parents, [], parents⟩
  sortMergeSet st mergeSetSlice

/-! ## Blue candidates -/

def blueAnticoneSizeLoop (block : DomainHash) : ℕ → Bool → BlockGHOSTDAGData → Except GhostdagError ℕ
  | 0, _, _ => throw .running
  | n + 1, isTrustedData, current =>
    match current.bluesAnticoneSizes.lookup block with
    | some blueAnticoneSize => pure blueAnticoneSize
    | none =>
      if current.selectedParent = some m.genesisHash then throw (.notInBlueSet block)
      else do
        let current ← st.get current.selectedParent isTrustedData
        if current.selectedParent = some virtualGenesisBlockHash then
          let current ← st.get current.selectedParent true
          blueAnticoneSizeLoop block n true current
        else blueAnticoneSizeLoop block n isTrustedData current

def blueAnticoneSize (block : DomainHash) (context : BlockGHOSTDAGData) : Except GhostdagError ℕ :=
  blueAnticoneSizeLoop m st block rounds false context

inductive Verdict
  | blue
  | red
  | undecided
  deriving DecidableEq, Repr

abbrev CandidateSizes := GoMap DomainHash ℕ × ℕ

def checkBlues (newBlockData : BlockGHOSTDAGData) (blueCandidate : DomainHash) :
    List DomainHash → CandidateSizes → Except GhostdagError (Verdict × CandidateSizes)
  | [], sizes => pure (.undecided, sizes)
  | block :: blocks, (bluesAnticoneSizes, anticoneSize) =>
    if m.isAncestorOf block blueCandidate then
      checkBlues newBlockData blueCandidate blocks (bluesAnticoneSizes, anticoneSize)
    else do
      let size ← blueAnticoneSize m rounds st block newBlockData
      let bluesAnticoneSizes := bluesAnticoneSizes.insert block size
      let anticoneSize := toKType (anticoneSize + 1)
      if anticoneSize > m.k then pure (.red, (bluesAnticoneSizes, anticoneSize))
      else if size = m.k then pure (.red, (bluesAnticoneSizes, anticoneSize))
      else if size > m.k then throw .anticoneLargerThanK
      else checkBlues newBlockData blueCandidate blocks (bluesAnticoneSizes, anticoneSize)

def checkBlueCandidateWithChainBlock (newBlockData : BlockGHOSTDAGData)
    (chainBlockHash : Option DomainHash) (chainBlockData : BlockGHOSTDAGData)
    (blueCandidate : DomainHash) (sizes : CandidateSizes) :
    Except GhostdagError (Verdict × CandidateSizes) :=
  if chainBlockHash.any fun hash => m.isAncestorOf hash blueCandidate then pure (.blue, sizes)
  else checkBlues m rounds st newBlockData blueCandidate chainBlockData.mergeSetBlues sizes

/-- The loop of `checkBlueCandidate` down the selected chain; `none` means red. -/
def checkBlueCandidateLoop (newBlockData : BlockGHOSTDAGData) (blueCandidate : DomainHash) :
    ℕ → Option DomainHash → BlockGHOSTDAGData → CandidateSizes → Except GhostdagError (Option CandidateSizes)
  | 0, _, _, _ => throw .running
  | n + 1, chainBlockHash, chainBlockData, sizes => do
    let (verdict, sizes) ← checkBlueCandidateWithChainBlock m rounds st newBlockData chainBlockHash
      chainBlockData blueCandidate sizes
    match verdict with
    | .blue => pure (some sizes)
    | .red => pure none
    | .undecided =>
      let selectedParentData ← st.get chainBlockData.selectedParent false
      checkBlueCandidateLoop newBlockData blueCandidate n chainBlockData.selectedParent selectedParentData sizes

def checkBlueCandidate (newBlockData : BlockGHOSTDAGData) (blueCandidate : DomainHash) :
    Except GhostdagError (Option CandidateSizes) :=
  if toKType newBlockData.mergeSetBlues.length = toKType (m.k + 1) then pure none
  else checkBlueCandidateLoop m rounds st newBlockData blueCandidate rounds none newBlockData (∅, 0)

/-! ## GHOSTDAG -/

def raiseSizes (candidateBluesAnticoneSizes bluesAnticoneSizes : GoMap DomainHash ℕ) :
    GoMap DomainHash ℕ :=
  GoMap.addMapped (fun size => toKType (size + 1)) candidateBluesAnticoneSizes bluesAnticoneSizes

def colorMergeSet : List DomainHash → BlockGHOSTDAGData → Except GhostdagError BlockGHOSTDAGData
  | [], newBlockData => pure newBlockData
  | blueCandidate :: candidates, newBlockData => do
    match ← checkBlueCandidate m rounds st newBlockData blueCandidate with
    | some (candidateBluesAnticoneSizes, candidateAnticoneSize) =>
      colorMergeSet candidates { newBlockData with
        mergeSetBlues := newBlockData.mergeSetBlues ++ [blueCandidate]
        bluesAnticoneSizes := raiseSizes candidateBluesAnticoneSizes
          (newBlockData.bluesAnticoneSizes.insert blueCandidate candidateAnticoneSize) }
    | none =>
      colorMergeSet candidates { newBlockData with
        mergeSetReds := newBlockData.mergeSetReds ++ [blueCandidate] }

def addWork : List DomainHash → ℕ → Except GhostdagError ℕ
  | [], blueWork => pure blueWork
  | blue :: blues, blueWork => do
    if blue = virtualGenesisBlockHash then addWork blues blueWork
    else
      let bits ← lookupOrFail st.bits blue
      addWork blues (blueWork + Difficulty.calcWork bits)

def ghostdag (blockHash : DomainHash) : Except GhostdagError BlockGHOSTDAGData := do
  let blockParents ← lookupOrFail st.parents blockHash
  match ← findSelectedParent st blockParents none with
  | none => pure ⟨0, 0, none, [], [], ∅⟩
  | some selectedParent =>
    let candidates ← mergeSetWithoutSelectedParent m rounds st selectedParent blockParents
    let newBlockData ← colorMergeSet m rounds st candidates
      ⟨0, 0, selectedParent, [selectedParent], [], (∅ : GoMap DomainHash ℕ).insert selectedParent 0⟩
    let selectedParentData ← st.get selectedParent false
    let blueWork ← addWork st newBlockData.mergeSetBlues selectedParentData.blueWork
    pure { newBlockData with
      blueScore := (selectedParentData.blueScore + newBlockData.mergeSetBlues.length) % 2 ^ 64
      blueWork := blueWork }

/-! ## Building a DAG -/

structure Block where
  hash : DomainHash
  parents : List DomainHash
  bits : ℕ
  deriving DecidableEq, Repr

def addBlock (b : Block) : Except GhostdagError Stores := do
  let st := { st with parents := st.parents.insert b.hash b.parents, bits := st.bits.insert b.hash b.bits }
  let data ← ghostdag m rounds st b.hash
  pure { st with data := st.data.insert b.hash data }

/-- The blocks one after the other, each over what the earlier ones have left. -/
def addBlocks : List Block → Stores → Except GhostdagError Stores
  | [], st => pure st
  | b :: dag, st => do
    let st ← addBlock m rounds st b
    addBlocks dag st

def Stores.empty : Stores := ⟨∅, ∅, ∅, ∅⟩

end Kaspad.Ghostdag
