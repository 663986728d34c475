import Kaspad.ConsensusState.VirtualParents

/-! # The bounded merge rule at the virtual block

`pickVirtualParents` asks `boundedMergeBreakingParents` once, and removes what it names. The blocks
that it removes may be the ones that made another merged block acceptable.
-/

namespace Kaspad.ConsensusState
open Lib Ghostdag Traversal List

/-! ## Excuses -/

/-- The merged blues that excuse a merged block which does not have the merge depth root in its past: itself, and those
over the block on whose selected chain the root is. -/
def excuses (m : VirtualManager) (d : BlockGHOSTDAGData) (root block : DomainHash) : List DomainHash :=
  d.mergeSetBlues.filter fun blue =>
    decide (blue = block) || (m.isInSelectedParentChainOf root blue && m.isAncestorOf block blue)

/-- The virtual block may merge `block`. -/
def Accepts (m : VirtualManager) (d : BlockGHOSTDAGData) (root block : DomainHash) : Prop :=
  m.isAncestorOf root block = true ∨ excuses m d root block ≠ []

/-- The virtual block over all selected parents may merge `block`, and over the kept ones it merges it and may not. -/
def LosesExcuse (m : VirtualManager) (d d' : BlockGHOSTDAGData) (root root' block : DomainHash) : Prop :=
  block ∈ mergeSet d' ∧ Accepts m d root block ∧ ¬ Accepts m d' root' block

section
variable {m : VirtualManager} {s : State} {powMax : ℕ} {dag : List Block} {parents : List DomainHash}
  {d : BlockGHOSTDAGData} {sp root : DomainHash}

theorem excuses_ne_nil {block : DomainHash} : excuses m d root block ≠ [] ↔ ∃ blue ∈ d.mergeSetBlues,
    blue = block ∨ m.isInSelectedParentChainOf root blue = true ∧ m.isAncestorOf block blue = true := by
  rw [Ne, excuses, filter_eq_nil_iff]
  simp [or_iff_not_imp_left]

theorem accepts_iff (hmerge : MergeData dag s.stores ⟨virtualBlockHash, parents, 0⟩ d sp) {block : DomainHash}
    (hblock : block ∈ mergeSet d) : Accepts m d root block ↔ (block ∈ d.mergeSetReds →
      isBadRed m root (nonBoundedMergeDepthViolatingBlues m d root) block = false) := by
  have hbad : isBadRed m root (nonBoundedMergeDepthViolatingBlues m d root) block = false ↔
      m.isAncestorOf root block = true ∨ ∃ blue ∈ d.mergeSetBlues,
        m.isInSelectedParentChainOf root blue = true ∧ m.isAncestorOf block blue = true := by
    simp [isBadRed, nonBoundedMergeDepthViolatingBlues, or_iff_not_imp_left]
  rw [Accepts, excuses_ne_nil, hbad]
  constructor
  · rintro (habove | ⟨blue, hblue, rfl | hexcuse⟩) hred
    · exact .inl habove
    · exact absurd rfl ((nodup_append.mp hmerge.nodup_mergeSet).2.2 blue hblue blue hred)
    · exact .inr ⟨blue, hblue, hexcuse⟩
  · intro h
    obtain hblue | hred := mem_append.mp hblock
    · exact .inr ⟨block, hblue, .inl rfl⟩
    · exact (h hred).imp_right fun ⟨blue, hblue, hexcuse⟩ => ⟨blue, hblue, .inr hexcuse⟩

variable (hs : DagState m powMax dag s)
include hs

/-- `CheckBoundedMergeDepth` at the virtual block over `parents`. -/
theorem DagState.checkBoundedMergeDepth_virtual {rounds : ℕ} (hrounds : dag.length < rounds)
    (hjoin : Joinable dag dag parents) (hmerge : MergeData dag s.stores ⟨virtualBlockHash, parents, 0⟩ d sp) :
    ∃ root, calculateMergeDepthRoot m rounds { s with virtual := d } virtualBlockHash = .ok root ∧
      (checkBoundedMergeDepth m rounds { s with virtual := d } virtualBlockHash ≠ .error .violatingBoundedMergeDepth ↔
        ∀ block ∈ mergeSet d, Accepts m d root block) := by
  have hsp := hjoin.mem sp hmerge.mem
  obtain ⟨root, hroot⟩ : ∃ root, calculateMergeDepthRoot m rounds { s with virtual := d } virtualBlockHash = .ok root :=
    hs.pointAtDepth_returns rounds hsp hrounds hmerge.selectedParent hs.roots
  obtain ⟨point, hpoint⟩ : ∃ point, calculateFinalityPoint m rounds { s with virtual := d } virtualBlockHash = .ok point :=
    hs.pointAtDepth_returns rounds hsp hrounds hmerge.selectedParent hs.points
  refine ⟨root, hroot, ?_⟩
  have hvirtual : State.get { s with virtual := d } virtualBlockHash = .ok d := if_pos rfl
  have hall : (∀ block ∈ mergeSet d, Accepts m d root block) ↔
      d.mergeSetReds.any (isBadRed m root (nonBoundedMergeDepthViolatingBlues m d root)) = false := by
    rw [any_eq_false]
    refine ⟨fun h red hred => ?_, fun h block hblock => (accepts_iff hmerge hblock).mpr fun hred => ?_⟩
    · have hmem : red ∈ mergeSet d := mem_append_right _ hred
      exact Bool.not_eq_true _ ▸ (accepts_iff hmerge hmem).mp (h red hmem) hred
    · exact Bool.eq_false_iff.mpr (h block hred)
  rw [hall]
  simp only [checkBoundedMergeDepth, mergeDepthRoot, finalityPoint, hvirtual, hroot, hpoint, hmerge.selectedParent,
    ok_bind, if_true, reduceCtorEq, if_false]
  cases d.mergeSetReds.any (isBadRed m root (nonBoundedMergeDepthViolatingBlues m d root)) <;> simp [throw, throwThe,
    MonadExceptOf.throw, pure, Except.pure]

/-- A parent over a bad red is not kept. -/
theorem Removal.accepts {rounds : ℕ} {v : DomainHash} {others kept : List DomainHash} {d' : BlockGHOSTDAGData}
    (h : Removal m rounds dag s v others kept d root) (hjoin : Joinable dag dag (v :: others))
    (hmerge : MergeData dag s.stores ⟨virtualBlockHash, v :: kept, 0⟩ d' v) {block : DomainHash}
    (hblock : block ∈ mergeSet d') : block ∈ mergeSet d ∧ Accepts m d root block := by
  rw [hmerge.mergeSet_eq, mem_cons] at hblock
  obtain rfl | hblock := hblock
  · have hmem : block ∈ d.mergeSetBlues := by
      rw [h.merge.first]
      exact mem_cons_self
    exact ⟨mem_append_left _ hmem, .inr (excuses_ne_nil.mpr ⟨block, hmem, .inl rfl⟩)⟩
  obtain ⟨⟨p, hp, hpv, hbelow⟩, hnot⟩ := (hmerge.merged block).mp hblock
  have hp : p ∈ kept := (mem_cons.mp hp).resolve_left fun heq => hnot (heq ▸ hbelow)
  obtain ⟨hothers, hkept⟩ := (h.kept p).mp hp
  have hmerged := (h.merge.merged block).mpr ⟨⟨p, mem_cons_of_mem _ hothers, hpv, hbelow⟩, hnot⟩
  have hmem : block ∈ mergeSet d := by
    rw [h.merge.mergeSet_eq]
    exact mem_cons_of_mem _ hmerged
  refine ⟨hmem, (accepts_iff h.merge hmem).mpr fun hred => Bool.eq_false_iff.mpr fun hbad => ?_⟩
  have hpdag := hjoin.mem p (mem_cons_of_mem _ hothers)
  have hanc : m.isAncestorOf block p = true := (hs.ancestors block (hs.validated.ancestor_mem hbelow hpdag) p hpdag).mpr hbelow
  rw [hkept block hred hbad] at hanc
  cases hanc

end

def crossed : List Block :=
  [⟨1, [], 0x1d00ffff⟩, ⟨2, [1], 0x1d00ffff⟩, ⟨3, [2], 0x1d00ffff⟩, ⟨4, [3], 0x1d00ffff⟩, ⟨5, [4], 0x1d00ffff⟩,
    ⟨6, [5], 0x1c00ffff⟩, ⟨7, [6], 0x1d00ffff⟩, ⟨8, [1], 0x1d00ffff⟩, ⟨9, [2], 0x1d00ffff⟩,
    ⟨10, [4, 8], 0x1d00ffff⟩, ⟨11, [5, 8], 0x1d00ffff⟩, ⟨12, [11], 0x1d00ffff⟩, ⟨13, [12, 9], 0x1d00ffff⟩]

def crossedGhostdag : Ghostdag.Manager := ⟨2, 1, ancestorIn crossed 13⟩

def crossedStores : Stores := (addBlocks crossedGhostdag 13 crossed Stores.empty).toOption.getD Stores.empty

def crossedManager : VirtualManager := ⟨Sync.managerOver crossedGhostdag crossed crossedStores 100, 2, 10, 5, 50⟩

def crossedState : State :=
  stateOver crossed crossedStores (fun h => if h ≤ 7 then .utxoValid else .utxoPendingVerification)
    (fun h => if h = 13 then 2 else 1) (fun _ => 1) 1

def carried : List Block := crossed ++ [⟨14, [12, 10], 0x1d00ffff⟩]

def carriedGhostdag : Ghostdag.Manager := ⟨2, 1, ancestorIn carried 14⟩

def carriedStores : Stores := (addBlocks carriedGhostdag 14 carried Stores.empty).toOption.getD Stores.empty

def carriedManager : VirtualManager := ⟨Sync.managerOver carriedGhostdag carried carriedStores 100, 2, 10, 5, 50⟩

def carriedState : State :=
  stateOver carried carriedStores (fun h => if h ≤ 7 then .utxoValid else .utxoPendingVerification)
    (fun h => if h = 13 ∨ h = 14 then 2 else 1) (fun _ => 1) 1

end Kaspad.ConsensusState
