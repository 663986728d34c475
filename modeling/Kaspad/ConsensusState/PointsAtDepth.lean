import Kaspad.ConsensusState.MergeDepth

/-! # Merge depth roots and finality points of a run

While genesis is the pruning point, every block gets its merge depth root and its finality point from those
of its selected parent: the highest block of its selected chain that is deep enough.
-/

namespace Kaspad.ConsensusState
open Lib Lib.ParentChain Ghostdag Traversal List

/-- `calculateAndStageMergeDepthRoot` and `calculateAndStageFinalityPoint` for one block after another. -/
def stagePoints (m : VirtualManager) (rounds : ℕ) : List DomainHash → State → Except VirtualError State
  | [], s => pure s
  | blockHash :: rest, s => do
    let root ← calculateMergeDepthRoot m rounds s blockHash
    let point ← calculateFinalityPoint m rounds s blockHash
    stagePoints m rounds rest { s with
      mergeDepthRoots := s.mergeDepthRoots.insert blockHash root
      finalityPoints := s.finalityPoints.insert blockHash point }

/-- The highest block of the selected chain of `b` whose blue score is less than that of `b` minus the depth,
or genesis when there is none. -/
structure PointAt (genesisHash : DomainHash) (st : Stores) (depth : ℕ) (b point : DomainHash) : Prop where
  onChain : OnChain (chainParent st genesisHash) point b
  below : score st point + depth < score st b ∨ point = genesisHash
  highest : ∀ x, OnChain (chainParent st genesisHash) x b → score st x + depth < score st b →
    OnChain (chainParent st genesisHash) x point

section
variable {m : VirtualManager} {st : Stores} (htree : SelectedTree m.genesisHash st)
  (hvirtual : ¬ Known st virtualBlockHash) (hchains : m.ChainsCorrect st) (hnext : m.toSync.ChildrenCorrect st)
  {s : State} (hs : s.stores = st) {rounds depth : ℕ} {b sp current : DomainHash} (hb : Known st b)

include hvirtual hs in
theorem get_of_known {d : BlockGHOSTDAGData} (hd : st.data.lookup b = some d) : s.get b = .ok d := by
  have hne : b ≠ virtualBlockHash := fun h => hvirtual (h ▸ ⟨d, hd⟩)
  unfold State.get
  rw [if_neg hne, hs, Ghostdag.get_eq hd]
  rfl

include htree hvirtual hchains hnext hs hb in
theorem climbChain_spec {n : ℕ} (hdepth : depth ≤ score st b)
    (hchain : OnChain (chainParent st m.genesisHash) current b) (hne : current ≠ b)
    (hbelow : score st current + depth < score st b ∨ current = m.genesisHash) (hn : score st b < score st current + n) :
    ∃ point, climbChain m s b sp (score st b - depth) n current = .ok point ∧
      PointAt m.genesisHash st depth b point := by
  induction n generalizing current with
  | zero =>
    have hle := hchain.rank_le htree.rank
    omega
  | succ n ih =>
    have hbv : b ≠ virtualBlockHash := fun h => hvirtual (h ▸ hb)
    have hin := (hchains current b (htree.known_of_onChain hchain hb) hb).mpr hchain
    obtain ⟨next, hfind, hparent, hchain'⟩ := (hnext b current hb hchain).2 hne
    obtain ⟨d, hd⟩ := htree.known_of_onChain hchain' hb
    have hlt := htree.rank next current hparent
    simp only [climbChain, childInSelectedParentChainOf, hbv, false_and, if_false, hin, Bool.not_true,
      Bool.false_eq_true, hfind, pure, Except.pure, ok_bind, get_of_known hvirtual hs hd]
    by_cases hstop : d.blueScore ≥ score st b - depth
    · rw [if_pos hstop]
      rw [← score_eq hd] at hstop
      refine ⟨current, rfl, hchain, hbelow, fun x hx hlow => ?_⟩
      obtain h | h := hx.total hchain'
      · obtain rfl | h := (onChain_iff hparent).mp h
        · omega
        · exact h
      · have hle := h.rank_le htree.rank
        omega
    · rw [if_neg hstop]
      rw [← score_eq hd] at hstop
      refine ih hchain' ?_ (.inl (by omega)) (by omega)
      rintro rfl
      omega

include htree hvirtual hchains hnext hs hb in
theorem pointAtDepth_spec (hpruning : s.pruningPoint = m.genesisHash) (hscore : score st m.genesisHash = 0)
    (hrounds : score st b < rounds) (hnot : b ≠ m.genesisHash ∨ 0 < depth) {stored : DomainHash → Option DomainHash}
    (hstored : ∀ p, chainParent st m.genesisHash b = some p → p ≠ m.genesisHash → ∃ point, stored p = some point ∧
      PointAt m.genesisHash st depth p point) :
    ∃ point, pointAtDepth m rounds s depth stored b = .ok point ∧ PointAt m.genesisHash st depth b point := by
  have hgenesis := htree.genesis_onChain hb
  obtain ⟨d, hd⟩ := hb
  obtain ⟨dg, hdg⟩ := htree.genesis
  have hdb := score_eq hd
  have hdg0 := score_eq hdg
  have hb : Known st b := ⟨d, hd⟩
  simp only [pointAtDepth, hpruning, get_of_known hvirtual hs hd, get_of_known hvirtual hs hdg, ok_bind]
  by_cases hlow : d.blueScore < depth
  · rw [if_pos hlow]
    exact ⟨_, rfl, hgenesis, .inr rfl, fun x _ hx => by omega⟩
  have hne : b ≠ m.genesisHash := by
    rintro rfl
    have hpos := hnot.resolve_left (not_not_intro rfl)
    omega
  have hover : ¬ d.blueScore < (dg.blueScore + depth) % 2 ^ 64 := by
    have hmod := Nat.mod_le (dg.blueScore + depth) (2 ^ 64)
    omega
  have hbv : b ≠ virtualBlockHash := fun h => hvirtual (h ▸ hb)
  have hin : isInChainOf m m.genesisHash b = fun _ => true := by
    funext _
    rw [isInChainOf, if_neg hbv]
    exact (hchains _ b ⟨dg, hdg⟩ hb).mpr hgenesis
  obtain ⟨p, hp⟩ := htree.exists_parent hb hne
  obtain ⟨-, hlt, d', hd', hsp⟩ := htree.parent_spec hp
  cases hd.symm.trans hd'
  simp only [if_neg hlow, if_neg hover, hsp, hin, Bool.not_true, Bool.false_eq_true, if_false]
  by_cases hfirst : p = m.genesisHash
  · rw [if_pos hfirst]
    refine ⟨_, rfl, hgenesis, .inr rfl, fun x hx hlow => ?_⟩
    obtain rfl | hx := (onChain_iff hp).mp hx
    · omega
    · exact hfirst ▸ hx
  obtain ⟨point, hpoint, hat⟩ := hstored p hp hfirst
  rw [if_neg hfirst, hpoint, ← hdb]
  refine climbChain_spec htree hvirtual hchains hnext hs hb (by omega) ?_ ?_ ?_ ?_
  all_goals split_ifs
  · exact hgenesis
  · exact onChain_step hp hat.onChain
  · exact hne.symm
  · rintro rfl
    have hle := hat.onChain.rank_le htree.rank
    omega
  · exact .inr rfl
  · exact hat.below.imp_left fun h => by omega
  · omega
  · omega

/-! ## The run -/

structure Staged (genesisHash : DomainHash) (st : Stores) (depth : ℕ) (done : List DomainHash)
    (points : GoMap DomainHash DomainHash) : Prop where
  right : ∀ h point, points.lookup h = some point → PointAt genesisHash st depth h point
  known : ∀ h ∈ done, ∃ point, points.lookup h = some point

theorem Staged.insert {genesisHash point : DomainHash} {done : List DomainHash} {points : GoMap DomainHash DomainHash}
    (h : Staged genesisHash st depth done points) (hpoint : PointAt genesisHash st depth b point) :
    Staged genesisHash st depth (done ++ [b]) (points.insert b point) := by
  refine ⟨fun x p hx => ?_, fun x hx => ?_⟩ <;> rw [GoMap.lookup_set] at *
  · split_ifs at hx with heq
    · rw [heq, ← Option.some.inj hx]
      exact hpoint
    · exact h.right x p hx
  · split_ifs with heq
    · exact ⟨point, rfl⟩
    · exact h.known x (by simpa [heq] using hx)

structure Staging (m : VirtualManager) (st : Stores) (done : List DomainHash) (s : State) : Prop where
  stores : s.stores = st
  pruningPoint : s.pruningPoint = m.genesisHash
  roots : Staged m.genesisHash st m.mergeDepth done s.mergeDepthRoots
  points : Staged m.genesisHash st m.finalityDepth done s.finalityPoints

variable (hscore : score st m.genesisHash = 0) {done order : List DomainHash}
include htree hvirtual hchains hnext hscore

include hb in
theorem Staging.calculated (h : Staging m st done s) (hrounds : score st b < rounds)
    (hparent : ∀ p, chainParent st m.genesisHash b = some p → p ≠ m.genesisHash → p ∈ done) :
    (b ≠ m.genesisHash ∨ 0 < m.mergeDepth → ∃ root, calculateMergeDepthRoot m rounds s b = .ok root ∧
      PointAt m.genesisHash st m.mergeDepth b root) ∧
    (b ≠ m.genesisHash ∨ 0 < m.finalityDepth → ∃ point, calculateFinalityPoint m rounds s b = .ok point ∧
      PointAt m.genesisHash st m.finalityDepth b point) := by
  constructor <;> intro hne <;>
    refine pointAtDepth_spec htree hvirtual hchains hnext h.stores hb h.pruningPoint hscore hrounds hne fun p hp hg => ?_
  · obtain ⟨root, hroot⟩ := h.roots.known p (hparent p hp hg)
    exact ⟨root, by rw [hroot, Option.some_or], h.roots.right p root hroot⟩
  obtain ⟨point, hpoint⟩ := h.points.known p (hparent p hp hg)
  exact ⟨point, hpoint, h.points.right p point hpoint⟩

theorem stagePoints_run (hrounds : ∀ b, Known st b → score st b < rounds)
    (horder : ∀ pre b post, order = pre ++ b :: post → Known st b ∧ b ≠ m.genesisHash ∧
      ∀ p, chainParent st m.genesisHash b = some p → p ≠ m.genesisHash → p ∈ done ++ pre) (h : Staging m st done s) :
    ∃ s', stagePoints m rounds order s = .ok s' ∧ Staging m st (done ++ order) s' := by
  induction order generalizing done s with
  | nil => exact ⟨s, rfl, (append_nil done).symm ▸ h⟩
  | cons b order ih =>
    obtain ⟨hb, hne, hparent⟩ := horder [] b order rfl
    rw [append_nil] at hparent
    obtain ⟨hroot, hpoint⟩ := h.calculated htree hvirtual hchains hnext hb hscore (hrounds b hb) hparent
    obtain ⟨root, hroot, hrootAt⟩ := hroot (.inl hne)
    obtain ⟨point, hpoint, hpointAt⟩ := hpoint (.inl hne)
    simp only [stagePoints, hroot, hpoint, ok_bind]
    rw [← singleton_append, ← append_assoc]
    refine ih (fun pre c post heq => ?_) ⟨h.stores, h.pruningPoint, h.roots.insert hrootAt, h.points.insert hpointAt⟩
    simpa using horder (b :: pre) c post (by simp [heq])

end

/-- Staged block by block, the points of all blocks are the highest chain blocks at their depths. -/
theorem stagePoints_spec (m : VirtualManager) (s : State) {dag : List Block} {rounds : ℕ}
    (hdag : IsDAG m.ghostdagManager dag) (hst : Recorded m.ghostdagManager dag dag s.stores)
    (hlen : dag.length < 2 ^ 64) (hvirtual : virtualBlockHash ∉ hashes dag) (hchains : m.ChainsCorrect s.stores)
    (hnext : m.toSync.ChildrenCorrect s.stores) (hpruning : s.pruningPoint = m.genesisHash)
    (hfresh : ∀ h, s.mergeDepthRoots.lookup h = none ∧ s.finalityPoints.lookup h = none)
    (hrounds : dag.length < rounds) : ∃ s', stagePoints m rounds (hashes dag).tail s = .ok s' ∧ ∀ b ∈ hashes dag,
      (b ≠ m.genesisHash ∨ 0 < m.mergeDepth → ∃ root, calculateMergeDepthRoot m rounds s' b = .ok root ∧
        PointAt m.genesisHash s.stores m.mergeDepth b root) ∧
      (b ≠ m.genesisHash ∨ 0 < m.finalityDepth → ∃ point, calculateFinalityPoint m rounds s' b = .ok point ∧
        PointAt m.genesisHash s.stores m.finalityDepth b point) := by
  have htree : SelectedTree m.genesisHash s.stores := selectedTree_of_recorded hdag hst hlen
  have hknown : ¬ Known s.stores virtualBlockHash := fun ⟨d, hd⟩ => hvirtual (hst.only _ d hd)
  have hbound : ∀ b, Known s.stores b → score s.stores b < rounds := fun b ⟨d, hd⟩ =>
    (score_le hdag hst hlen (hst.only b d hd)).trans_lt hrounds
  obtain ⟨bits, rest, heq, hrest⟩ := hdag.genesis
  have hscore : score s.stores m.genesisHash = 0 :=
    score_eq (hst.genesisData ⟨m.genesisHash, [], bits⟩ (heq ▸ mem_cons_self) rfl)
  have hhashes : hashes dag = m.genesisHash :: hashes rest := by rw [heq]; rfl
  have hordered : ∀ pre b post, hashes rest = pre ++ b :: post → Known s.stores b ∧ b ≠ m.genesisHash ∧
      ∀ p, chainParent s.stores m.genesisHash b = some p → p ≠ m.genesisHash → p ∈ [] ++ pre := by
    intro pre b post hsplit
    obtain ⟨pre, tail, rfl, rfl, htail⟩ := map_eq_append_iff.mp hsplit
    obtain ⟨b, post, rfl, rfl, rfl⟩ := map_eq_cons_iff.mp htail
    have hb : b ∈ dag := by simp [heq]
    refine ⟨hst.knows.data _ (mem_hashes hb), fun hg => ?_, fun p hp hg => ?_⟩
    · exact hrest b (by simp) ((hdag.hash_eq_genesis_iff hb).mp hg)
    obtain ⟨b', hb', hhash, d, -, hmerge⟩ := htree.mergeData hst hp
    obtain rfl := hdag.block_ext hb' hb hhash
    have hearlier := hdag.earlier (⟨m.genesisHash, [], bits⟩ :: pre) b' post heq p hmerge.mem
    simpa [hashes, hg] using hearlier
  have hstart : Staging m s.stores [] s := by
    refine ⟨rfl, hpruning, ⟨fun h p hp => ?_, by simp⟩, ⟨fun h p hp => ?_, by simp⟩⟩ <;> simp [hfresh h] at hp
  obtain ⟨s', hrun, hstaged⟩ := stagePoints_run htree hknown hchains hnext hscore hbound hordered hstart
  refine ⟨s', by rw [hhashes]; exact hrun, fun b hb => ?_⟩
  have hb := hst.knows.data b hb
  refine hstaged.calculated htree hknown hchains hnext hb hscore (hbound b hb) fun p hp hg => ?_
  obtain ⟨⟨d, hd⟩, -⟩ := htree.parent_spec hp
  have hmem := hst.only p d hd
  rw [hhashes] at hmem
  exact (mem_cons.mp hmem).resolve_left hg

theorem stagePoints_spec_diamond :
    let m : VirtualManager := ⟨Sync.managerOver diamondManager diamond diamondStores 10, 2, 10, 1, 2⟩
    let s : State := ⟨diamondStores, ∅, ∅, ∅, ∅, 1, ⟨0, 0, none, [], [], ∅⟩⟩
    ∃ s' root, stagePoints m 5 [2, 3, 4] s = .ok s' ∧ calculateMergeDepthRoot m 5 s' 4 = .ok root := by
  intro m s
  have hdag := (isDAG_of_checkDAG diamond_checkDAG).1
  have htree := selectedTree_of_recorded hdag diamond_recorded (by decide)
  obtain ⟨s', hrun, hall⟩ := stagePoints_spec m s hdag diamond_recorded (by decide) (by decide)
    (chainsCorrect_managerOf htree)
    (Sync.childrenCorrect_managerOver htree (fun h ⟨d, hd⟩ => diamond_recorded.only h d hd) 10) rfl
    (fun h => ⟨rfl, rfl⟩) (show diamond.length < 5 by decide)
  obtain ⟨root, hroot, -⟩ := (hall 4 (by decide)).1 (.inr (by decide))
  exact ⟨s', root, hrun, hroot⟩

end Kaspad.ConsensusState
