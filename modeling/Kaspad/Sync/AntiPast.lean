import Kaspad.Traversal.SelectedChain

/-! # Blocks between two blocks

`antiPastHashesBetween` of `domain/consensus/processes/syncmanager/antipast.go`: the merge sets of
the selected chain of `highHash`, from a chain block below `lowHash` upward, without the past of
`lowHash`. The merge sets partition the past, so that this is the past of `highHash` without the past
of `lowHash`, each block once and after its parents.
-/

namespace Kaspad.Sync
open Lib Lib.ParentChain Ghostdag Traversal List

inductive AntiPastError
  /-- "maxBlocks (%d) MUST be >= MergeSetSizeLimit + 1 (%d)" -/
  | maxBlocksTooLow (maxBlocks limit : ℕ)
  /-- "low hash blueScore > high hash blueScore (%d > %d)" -/
  | lowAboveHigh (lowBlueScore highBlueScore : ℕ)
  /-- "%s is not in the selected parent chain of %s" -/
  | notInSelectedParentChain (highHash lowHash : DomainHash)
  | traversal (error : TraversalError)
  | ghostdag (error : GhostdagError)
  deriving DecidableEq, Repr

/-- What the sync manager calls: the DAG topology manager, and `FindNextAncestor` of the reachability
manager (`none` for an error). -/
structure Manager extends Traversal.Manager where
  isAncestorOf : DomainHash → DomainHash → Bool
  findNextAncestor : DomainHash → DomainHash → Option DomainHash
  mergeSetSizeLimit : ℕ

variable (m : Manager) (st : Stores)

def findLowHashInHighHashSelectedParentChain (rounds : ℕ) (lowHash highHash : DomainHash) :
    Except TraversalError DomainHash := do
  let (_, lowHash) ← walkDown st (fun current => m.isInSelectedParentChainOf current highHash) rounds lowHash []
  pure lowHash

/-- The loop over the selected child iterator of `iteratorHigh`: `current` is the block that the
iterator stands at. -/
def collectMergeSets (originalLowHash iteratorHigh : DomainHash) (maxBlocks : ℕ) :
    ℕ → DomainHash → List DomainHash → DomainHash → Except AntiPastError (List DomainHash × DomainHash)
  | 0, _, _, _ => throw (.traversal .running)
  | n + 1, current, blockHashes, highHash =>
    match m.findNextAncestor iteratorHigh current with
    | none => pure (blockHashes, highHash)
    | some current => do
      let sortedMergeSet ← (getSortedMergeSet st current).mapError .ghostdag
      if maxBlocks ≠ 0 ∧ blockHashes.length + sortedMergeSet.length > maxBlocks then
        pure (blockHashes, highHash)
      else
        collectMergeSets originalLowHash iteratorHigh maxBlocks n current
          (blockHashes ++ sortedMergeSet.filter fun blockHash => !m.isAncestorOf blockHash originalLowHash)
          current

def antiPastHashesBetween (rounds : ℕ) (lowHash highHash : DomainHash) (maxBlocks : ℕ) :
    Except AntiPastError (List DomainHash × DomainHash) := do
  if maxBlocks ≠ 0 ∧ maxBlocks < m.mergeSetSizeLimit + 1 then
    throw (.maxBlocksTooLow maxBlocks (m.mergeSetSizeLimit + 1))
  let originalLowHash := lowHash
  let lowHash ←
    (findLowHashInHighHashSelectedParentChain m st rounds lowHash highHash).mapError .traversal
  let lowBlockGHOSTDAGData ← (ghostdagData st lowHash).mapError .traversal
  let highBlockGHOSTDAGData ← (ghostdagData st highHash).mapError .traversal
  if lowBlockGHOSTDAGData.blueScore > highBlockGHOSTDAGData.blueScore then
    throw (.lowAboveHigh lowBlockGHOSTDAGData.blueScore highBlockGHOSTDAGData.blueScore)
  if !m.isInSelectedParentChainOf lowHash highHash then
    throw (.notInSelectedParentChain highHash lowHash)
  let (blockHashes, highHash) ←
    collectMergeSets m st originalLowHash highHash maxBlocks rounds lowHash [] highHash
  if lowHash ≠ highHash then pure (blockHashes ++ [highHash], highHash)
  else pure (blockHashes, highHash)

/-! ## The chain between -/

/-- `FindNextAncestor` finds the next block on the chain up to a block, and fails at that block. -/
def Manager.ChildrenCorrect (m : Manager) (st : Stores) : Prop :=
  ∀ high low, Known st high → OnChain (chainParent st m.genesisHash) low high →
    (low = high → m.findNextAncestor high low = none) ∧
    (low ≠ high → ∃ c, m.findNextAncestor high low = some c ∧ chainParent st m.genesisHash c = some low ∧
      OnChain (chainParent st m.genesisHash) c high)

def Manager.AncestorsCorrect (m : Manager) (dag : List Block) : Prop :=
  ∀ a ∈ hashes dag, ∀ b ∈ hashes dag, m.isAncestorOf a b = true ↔ Ancestor dag a b

/-- The last block that the selected chains of two blocks share, from which the loop goes up. -/
structure Meets (m : Manager) (st : Stores) (lowHash highHash start : DomainHash) : Prop where
  low : OnChain (chainParent st m.genesisHash) start lowHash
  high : OnChain (chainParent st m.genesisHash) start highHash
  last : ∀ x, OnChain (chainParent st m.genesisHash) x lowHash → OnChain (chainParent st m.genesisHash) x highHash →
    OnChain (chainParent st m.genesisHash) x start

/-- What a block of the chain merges: the past of the block without the past of its selected parent. -/
def mergedBy (dag : List Block) (selectedParent hash : DomainHash) : Set DomainHash :=
  {x | InPast dag x hash ∧ ¬ InPast dag x selectedParent}

/-- The past of a block without `lowHash` and its past. -/
def outside (dag : List Block) (lowHash hash : DomainHash) : Set DomainHash :=
  {x | InPast dag x hash ∧ ¬ Ancestor dag x lowHash}

/-- The past of `current` without the past of `lowHash`, each block once and none before an ancestor. -/
structure Gathered (dag : List Block) (lowHash current : DomainHash) (blockHashes : List DomainHash) :
    Prop where
  nodup : blockHashes.Nodup
  mem : ∀ x, x ∈ blockHashes ↔ InPast dag x current ∧ ¬ Ancestor dag x lowHash
  order : blockHashes.Pairwise fun x y => ¬ Ancestor dag y x

section
variable {m st} {g : Ghostdag.Manager} {dag : List Block} (hdag : IsDAG g dag)
  (hst : Recorded g dag dag st) (htree : SelectedTree m.genesisHash st)
  {lowHash highHash current next : DomainHash} {blockHashes : List DomainHash}

theorem ncard_eq_length {s : Set DomainHash} {l : List DomainHash} (hnodup : l.Nodup) (h : ∀ x, x ∈ l ↔ x ∈ s) :
    s.ncard = l.length := by
  have hs : s = l.toFinset := by
    ext x
    simp [h]
  rw [hs, Set.ncard_coe_finset, toFinset_card_of_nodup hnodup]

theorem Gathered.ncard_outside (h : Gathered dag lowHash current blockHashes) :
    (outside dag lowHash current).ncard = blockHashes.length := ncard_eq_length h.nodup h.mem

include hdag hst htree in
theorem Gathered.step (hpos : PositiveWork dag) (hancestors : m.AncestorsCorrect dag)
    (hlow : lowHash ∈ hashes dag) (h : Gathered dag lowHash current blockHashes)
    (hnext : chainParent st m.genesisHash next = some current) : ∃ sorted, getSortedMergeSet st next = .ok sorted ∧
      (mergedBy dag current next).ncard = sorted.length ∧ current ∈ sorted ∧
      Gathered dag lowHash next (blockHashes ++ sorted.filter fun x => !m.isAncestorOf x lowHash) := by
  obtain ⟨b, hb, rfl, d, hd, hmerge⟩ := htree.mergeData hst hnext
  obtain ⟨sorted, hsorted, hperm, horder⟩ := getSortedMergeSet_spec hdag hst hpos hb hd hmerge
  have hnodup := hperm.nodup_iff.mpr hmerge.nodup_mergeSet
  have hmerged : ∀ x, x ∈ sorted ↔ x ∈ mergedBy dag current b.hash := by
    intro x
    rw [hperm.mem_iff, mergedBy, Set.mem_ofPred_eq, hmerge.inPast_iff hdag.toTopological hb]
    exact ⟨fun hx => ⟨.inl hx, hmerge.not_inPast hx⟩, fun hx => hx.1.resolve_right hx.2⟩
  have hfilter : ∀ x, x ∈ sorted.filter (fun x => !m.isAncestorOf x lowHash) ↔
      x ∈ mergeSet d ∧ ¬ Ancestor dag x lowHash := by
    intro x
    rw [mem_filter, hperm.mem_iff]
    refine and_congr_right fun hx => ?_
    have hpast := (hmerge.inPast_iff hdag.toTopological hb).mpr (.inl hx)
    rw [← hancestors x (hdag.ancestor_mem hpast.1 (mem_hashes hb)) lowHash hlow]
    simp
  refine ⟨sorted, hsorted, ncard_eq_length hnodup hmerged,
    (hmerged current).mpr ⟨hmerge.inPast_sp hdag.toTopological hb, fun hpast => hpast.2 rfl⟩,
    nodup_append.mpr ⟨h.nodup, hnodup.filter _, ?_⟩, fun x => ?_, pairwise_append.mpr ⟨h.order, horder.filter _, ?_⟩⟩
  · rintro x hx y hy rfl
    exact hmerge.not_inPast ((hfilter x).mp hy).1 ((h.mem x).mp hx).1
  · rw [mem_append, h.mem, hfilter, hmerge.inPast_iff hdag.toTopological hb]
    tauto
  intro x hx y hy hanc
  exact hmerge.not_inPast ((hfilter y).mp hy).1 (Ancestor.trans_inPast hdag.toTopological hanc ((h.mem x).mp hx).1)

include hdag hst htree in
theorem collectMergeSets_spec (hpos : PositiveWork dag) (hancestors : m.AncestorsCorrect dag)
    (hchildren : m.ChildrenCorrect st) (hlow : lowHash ∈ hashes dag) (hhigh : Known st highHash) {n : ℕ}
    (hchain : OnChain (chainParent st m.genesisHash) current highHash)
    (hn : score st highHash < score st current + n) (h : Gathered dag lowHash current blockHashes)
    (high : DomainHash) (hend : current = highHash → high = highHash) :
    ∃ l, collectMergeSets m st lowHash highHash 0 n current blockHashes high = .ok (l, highHash) ∧
      Gathered dag lowHash highHash l := by
  induction n generalizing current blockHashes high with
  | zero =>
    have hle := OnChain.rank_le htree.rank hchain
    omega
  | succ n ih =>
    unfold collectMergeSets
    by_cases heq : current = highHash
    · rw [(hchildren highHash current hhigh hchain).1 heq]
      exact ⟨blockHashes, by rw [hend heq]; rfl, heq ▸ h⟩
    obtain ⟨c, hc, hparent, hchain'⟩ := (hchildren highHash current hhigh hchain).2 heq
    obtain ⟨sorted, hsorted, -, -, hstep⟩ := h.step hdag hst htree hpos hancestors hlow hparent
    have hlt := htree.rank c current hparent
    obtain ⟨l, hl, hgathered⟩ := ih hchain' (by omega) hstep c id
    refine ⟨l, ?_, hgathered⟩
    simp only [hc, hsorted, Except.mapError, ok_bind, ne_eq, not_true_eq_false, false_and, if_false]
    exact hl

theorem Meets.gathered (hst : Recorded g dag dag st) (htree : SelectedTree m.genesisHash st) {start : DomainHash}
    (h : Meets m st lowHash highHash start) : Gathered dag lowHash start [] := by
  refine ⟨nodup_nil, fun x => ?_, .nil⟩
  simp only [not_mem_nil, false_iff, not_and, not_not]
  exact fun hpast => hpast.1.trans (htree.ancestor hst h.low)

section
variable (htree : SelectedTree m.genesisHash st) (hchains : m.ChainsCorrect st) (hlow : Known st lowHash)
  (hhigh : Known st highHash) {rounds : ℕ} (hrounds : score st lowHash < rounds)
include htree hchains hlow hhigh hrounds

theorem findLowHash_spec : ∃ start, Meets m st lowHash highHash start ∧
    findLowHashInHighHashSelectedParentChain m st rounds lowHash highHash = .ok start := by
  obtain ⟨down, hdown⟩ := exists_descent (htree.genesis_onChain hlow)
  obtain ⟨start, walked, hwalked, hstart, hfirst⟩ := hdown.first
    (P := fun x => OnChain (chainParent st m.genesisHash) x highHash) (htree.genesis_onChain hhigh)
  have hknown : ∀ x, OnChain (chainParent st m.genesisHash) x lowHash → Known st x :=
    fun x hx => htree.known_of_onChain hx hlow
  have hlength := hwalked.length_le htree.rank
  refine ⟨start, ⟨hwalked.onChain, hstart, fun x hx hx' => ?_⟩, ?_⟩
  · exact (hwalked.mem_or_onChain hx).resolve_left fun hmem => hfirst x hmem hx'
  unfold findLowHashInHighHashSelectedParentChain
  rw [walkDown_spec htree (fun current => m.isInSelectedParentChainOf current highHash) [] hwalked (fun x hx => by
      have hx' := (hwalked.mem htree.rank hx).1
      simpa [← hchains x highHash (hknown x hx') hhigh] using hfirst x hx)
    ((hchains start highHash (hknown start hwalked.onChain) hhigh).mpr hstart) (by omega)]
  rfl

/-- The call is the walk down to where the chains meet, the loop, and the block that the loop reached. -/
theorem antiPastHashesBetween_eq {maxBlocks : ℕ} (hmax : ¬ (maxBlocks ≠ 0 ∧ maxBlocks < m.mergeSetSizeLimit + 1)) :
    ∃ start, Meets m st lowHash highHash start ∧ antiPastHashesBetween m st rounds lowHash highHash maxBlocks =
      (collectMergeSets m st lowHash highHash maxBlocks rounds start [] highHash).map fun result =>
        (if start ≠ result.2 then result.1 ++ [result.2] else result.1, result.2) := by
  obtain ⟨start, hmeets, hfind⟩ := findLowHash_spec htree hchains hlow hhigh hrounds
  obtain ⟨dstart, hdstart⟩ := htree.known_of_onChain hmeets.low hlow
  obtain ⟨dhigh, hdhigh⟩ := hhigh
  have hscores : ¬ dstart.blueScore > dhigh.blueScore := by
    have hle := OnChain.rank_le htree.rank hmeets.high
    rw [score_eq hdstart, score_eq hdhigh] at hle
    omega
  have hin : m.isInSelectedParentChainOf start highHash = true :=
    (hchains start highHash ⟨_, hdstart⟩ ⟨_, hdhigh⟩).mpr hmeets.high
  refine ⟨start, hmeets, ?_⟩
  unfold antiPastHashesBetween
  simp only [if_neg hmax, hfind, Except.mapError, ok_bind, ghostdagData_eq hdstart, ghostdagData_eq hdhigh,
    if_neg hscores, hin, Bool.not_true, Bool.false_eq_true, if_false]
  cases collectMergeSets m st lowHash highHash maxBlocks rounds start [] highHash with
  | error e => rfl
  | ok result =>
    simp only [ok_bind, Except.map]
    split_ifs <;> rfl

end

end

theorem index_lt_of_isParent {dag : List Block} (htop : Topological dag) {blocks : List DomainHash}
    (horder : blocks.Pairwise fun x y => ¬ Ancestor dag y x) (i j : ℕ) (p c : DomainHash)
    (hi : blocks[i]? = some p) (hj : blocks[j]? = some c) (hparent : IsParent dag p c) : i < j := by
  obtain ⟨hi', rfl⟩ := List.getElem?_eq_some_iff.mp hi
  obtain ⟨hj', rfl⟩ := List.getElem?_eq_some_iff.mp hj
  rcases lt_trichotomy i j with hlt | rfl | hgt
  · exact hlt
  · exact absurd (htop.rank_lt _ _ hparent) (lt_irrefl _)
  · exact absurd (.single hparent) (pairwise_iff_getElem.mp horder j i hj' hi' hgt)

/-- With `highHash` at the end, what was gathered is the past of `highHash` and itself. -/
theorem Gathered.concat {dag : List Block} (htop : Topological dag) {lowHash highHash : DomainHash}
    {l : List DomainHash} (h : Gathered dag lowHash highHash l) (hnot : ¬ Ancestor dag highHash lowHash) :
    (l ++ [highHash]).Nodup ∧ (∀ x, x ∈ l ++ [highHash] ↔ Ancestor dag x highHash ∧ ¬ Ancestor dag x lowHash) ∧
      (l ++ [highHash]).Pairwise fun x y => ¬ Ancestor dag y x := by
  have hnew : highHash ∉ l := fun hin => ((h.mem highHash).mp hin).1.2 rfl
  refine ⟨by simpa using h.nodup.concat hnew, fun x => ?_, ?_⟩
  · rw [mem_append, mem_singleton, h.mem]
    constructor
    · rintro (⟨hpast, hx⟩ | rfl)
      · exact ⟨hpast.1, hx⟩
      · exact ⟨.refl, hnot⟩
    rintro ⟨hanc, hx⟩
    by_cases hxh : x = highHash
    · exact .inr hxh
    · exact .inl ⟨⟨hanc, hxh⟩, hx⟩
  · refine pairwise_append.mpr ⟨h.order, pairwise_singleton _ _, fun x hx y hy hanc => ?_⟩
    rw [mem_singleton.mp hy] at hanc
    obtain ⟨hpast, -⟩ := (h.mem x).mp hx
    exact hpast.2 (htop.antisymm hpast.1 hanc)

/-- Without a bound: the blocks of `highHash` and its past outside of `lowHash` and its past, after their parents.
-/
theorem antiPastHashesBetween_spec {g : Ghostdag.Manager} {powMax : ℕ} {dag : List Block}
    (hdag : Validated g powMax dag) (hlen : dag.length < 2 ^ 64) (hst : Recorded g dag dag st)
    (hgenesis : m.genesisHash = g.genesisHash) (hchains : m.ChainsCorrect st)
    (hchildren : m.ChildrenCorrect st) (hancestors : m.AncestorsCorrect dag) {rounds : ℕ}
    (hrounds : dag.length < rounds) (lowHash highHash : DomainHash) (hlow : lowHash ∈ hashes dag)
    (hhigh : highHash ∈ hashes dag) (hnot : ¬ InPast dag highHash lowHash) :
    ∃ blocks, antiPastHashesBetween m st rounds lowHash highHash 0 = .ok (blocks, highHash) ∧
      blocks.Nodup ∧ (∀ x, x ∈ blocks ↔ Ancestor dag x highHash ∧ ¬ Ancestor dag x lowHash) ∧
      ∀ (i j : ℕ) (p c : DomainHash), blocks[i]? = some p → blocks[j]? = some c → IsParent dag p c → i < j := by
  have htop := hdag.toTopological
  have htree : SelectedTree m.genesisHash st := hgenesis ▸ selectedTree_of_recorded hdag.toIsDAG hst hlen
  have hhigh' : Known st highHash := hst.knows.data highHash hhigh
  have hlowScore := score_le hdag.toIsDAG hst hlen hlow
  have hhighScore := score_le hdag.toIsDAG hst hlen hhigh
  obtain ⟨start, hmeets, hreturns⟩ := antiPastHashesBetween_eq htree hchains (hst.knows.data lowHash hlow) hhigh'
    (show score st lowHash < rounds by omega) (show ¬ ((0 : ℕ) ≠ 0 ∧ 0 < m.mergeSetSizeLimit + 1) by simp)
  obtain ⟨l, hl, hgathered⟩ := collectMergeSets_spec hdag.toIsDAG hst htree hdag.positiveWork hancestors hchildren hlow
    hhigh' (n := rounds) hmeets.high (by omega) (hmeets.gathered hst htree) highHash fun _ => rfl
  rw [hreturns, hl]
  by_cases heq : start = highHash
  · -- `highHash` is on the chain of `lowHash` without being in its past: the two are equal.
    have hsame : highHash = lowHash := by
      by_contra hne
      exact hnot ⟨heq ▸ htree.ancestor hst hmeets.low, hne⟩
    refine ⟨l, by simp [Except.map, heq], hgathered.nodup, fun x => ?_, index_lt_of_isParent htop hgathered.order⟩
    rw [hgathered.mem, hsame]
    exact ⟨fun h => absurd h.1.1 h.2, fun h => absurd h.1 h.2⟩
  have hnotLow : ¬ Ancestor dag highHash lowHash := by
    refine fun hanc => hnot ⟨hanc, fun hsame => heq ?_⟩
    -- A block meets itself.
    exact hmeets.high.eq_of_rank_le htree.rank (OnChain.rank_le htree.rank (hmeets.last highHash (hsame ▸ .refl) .refl))
  obtain ⟨hnodup, hmem, horder⟩ := hgathered.concat htop hnotLow
  exact ⟨l ++ [highHash], by simp [Except.map, heq], hnodup, hmem, index_lt_of_isParent htop horder⟩

/-! ## Bounded batches -/

variable {lowHash highHash : DomainHash} {result : List DomainHash × DomainHash}

theorem antiPastHashesBetween_eq_ok {m : Manager} {st : Stores} {rounds maxBlocks : ℕ}
    (h : antiPastHashesBetween m st rounds lowHash highHash maxBlocks = .ok result) :
    ¬ (maxBlocks ≠ 0 ∧ maxBlocks < m.mergeSetSizeLimit + 1) ∧ ∃ start collected high,
      findLowHashInHighHashSelectedParentChain m st rounds lowHash highHash = .ok start ∧
      collectMergeSets m st lowHash highHash maxBlocks rounds start [] highHash = .ok (collected, high) ∧
      result = (if start ≠ high then collected ++ [high] else collected, high) := by
  unfold antiPastHashesBetween at h
  by_cases hmax : maxBlocks ≠ 0 ∧ maxBlocks < m.mergeSetSizeLimit + 1
  · rw [if_pos hmax] at h
    cases h
  rw [if_neg hmax] at h
  obtain ⟨start, hstart, h⟩ := bind_eq_ok.mp h
  obtain ⟨lowData, -, h⟩ := bind_eq_ok.mp h
  obtain ⟨highData, -, h⟩ := bind_eq_ok.mp h
  by_cases hscores : lowData.blueScore > highData.blueScore
  · rw [if_pos hscores] at h
    cases h
  rw [if_neg hscores] at h
  cases hin : m.isInSelectedParentChainOf start highHash <;> rw [hin] at h
  · cases h
  obtain ⟨⟨collected, high⟩, hcollect, h⟩ := bind_eq_ok.mp h
  refine ⟨hmax, start, collected, high, mapError_eq_ok.mp hstart, hcollect, ?_⟩
  dsimp only at h
  split_ifs at h ⊢ <;> exact (Except.ok.inj h).symm

section
variable {m st} {g : Ghostdag.Manager} (htree : SelectedTree m.genesisHash st) (hchildren : m.ChildrenCorrect st)
  {lowHash originalLowHash highHash current : DomainHash} {blockHashes : List DomainHash} {maxBlocks : ℕ}
  {result : List DomainHash × DomainHash}

include htree hchildren

theorem collectMergeSets_onChain (hhigh : Known st highHash) {n : ℕ}
    (hchain : OnChain (chainParent st m.genesisHash) current highHash) (habove : score st lowHash < score st current)
    (h : collectMergeSets m st originalLowHash highHash maxBlocks n current blockHashes current = .ok result) :
    OnChain (chainParent st m.genesisHash) result.2 highHash ∧ score st lowHash < score st result.2 := by
  induction n generalizing current blockHashes with
  | zero => cases h
  | succ n ih =>
    unfold collectMergeSets at h
    by_cases heq : current = highHash
    · rw [(hchildren highHash current hhigh hchain).1 heq] at h
      rw [← Except.ok.inj h]
      exact ⟨hchain, habove⟩
    obtain ⟨c, hc, hparent, hchain'⟩ := (hchildren highHash current hhigh hchain).2 heq
    rw [hc] at h
    obtain ⟨sorted, -, h⟩ := bind_eq_ok.mp h
    split_ifs at h with hfull
    · rw [← Except.ok.inj h]
      exact ⟨hchain, habove⟩
    · exact ih hchain' (habove.trans (htree.rank c current hparent)) h

theorem antiPastHashesBetween_last (hchains : m.ChainsCorrect st)
    (hlimit : ∀ hash sorted, getSortedMergeSet st hash = .ok sorted → sorted.length ≤ maxBlocks)
    (hlow : Known st lowHash) (hhigh : Known st highHash)
    (hchain : OnChain (chainParent st m.genesisHash) lowHash highHash) (hne : lowHash ≠ highHash) {rounds : ℕ}
    (h : antiPastHashesBetween m st rounds lowHash highHash maxBlocks = .ok result) :
    result.1.getLast? = some result.2 ∧ OnChain (chainParent st m.genesisHash) result.2 highHash := by
  have hin := (hchains lowHash highHash hlow hhigh).mpr hchain
  have hfind : ∀ start, findLowHashInHighHashSelectedParentChain m st rounds lowHash highHash = .ok start →
      start = lowHash := by
    intro start hstart
    unfold findLowHashInHighHashSelectedParentChain at hstart
    cases rounds with
    | zero => cases hstart
    | succ rounds =>
      unfold walkDown at hstart
      rw [if_pos hin] at hstart
      exact (Except.ok.inj hstart).symm
  obtain ⟨c, hc, hparent, hchain'⟩ := (hchildren highHash lowHash hhigh hchain).2 hne
  have habove := htree.rank c lowHash hparent
  obtain ⟨hmax, start, collected, high, hstart, hcollect, rfl⟩ := antiPastHashesBetween_eq_ok h
  obtain rfl := hfind start hstart
  -- The first merge set fits, so the iteration goes on above `lowHash`.
  have hactual : OnChain (chainParent st m.genesisHash) high highHash ∧ score st start < score st high := by
    cases rounds with
    | zero => cases hcollect
    | succ rounds =>
      unfold collectMergeSets at hcollect
      rw [hc] at hcollect
      obtain ⟨sorted, hsorted, hcollect⟩ := bind_eq_ok.mp hcollect
      have hfits := hlimit c sorted (mapError_eq_ok.mp hsorted)
      rw [if_neg (by simp only [length_nil]; omega)] at hcollect
      exact collectMergeSets_onChain htree hchildren hhigh hchain' habove hcollect
  have hne' : start ≠ high := fun heq => absurd hactual.2 (by rw [heq]; exact lt_irrefl _)
  rw [if_pos hne']
  exact ⟨by simp, hactual.1⟩

end

/-- The merge sets from `start` up to the chain block `hash` are gathered whole, and fill the batch. -/
structure Fills (m : Manager) (st : Stores) (dag : List Block) (lowHash highHash : DomainHash) (maxBlocks : ℕ)
    (start hash : DomainHash) : Prop where
  above : OnChain (chainParent st m.genesisHash) start hash
  ne : hash ≠ start
  below : OnChain (chainParent st m.genesisHash) hash highHash
  full : (outside dag lowHash hash).ncard = maxBlocks
  fits : ∀ p c, chainParent st m.genesisHash c = some p → OnChain (chainParent st m.genesisHash) start p →
    OnChain (chainParent st m.genesisHash) c hash →
    (outside dag lowHash p).ncard + (mergedBy dag p c).ncard ≤ maxBlocks

section
variable {m st} {g : Ghostdag.Manager} {dag : List Block} {lowHash highHash current next start : DomainHash}
  {blockHashes : List DomainHash} {maxBlocks : ℕ}

/-- A chain block with a parent at or above `current` is `next` or has its parent at or above `next`. -/
theorem onChain_next_or (htree : SelectedTree m.genesisHash st)
    (hnext : chainParent st m.genesisHash next = some current) {hash p c : DomainHash}
    (hc : chainParent st m.genesisHash c = some p) (hp : OnChain (chainParent st m.genesisHash) current p)
    (hcx : OnChain (chainParent st m.genesisHash) c hash) (hnx : OnChain (chainParent st m.genesisHash) next hash) :
    c = next ∨ OnChain (chainParent st m.genesisHash) next p := by
  rcases hcx.total hnx with hcn | hnc
  · refine .inl (((onChain_iff hnext).mp hcn).resolve_right fun hcc => ?_)
    have hlt := htree.rank c p hc
    have hle := OnChain.rank_le htree.rank hcc
    have hle' := OnChain.rank_le htree.rank hp
    omega
  · exact ((onChain_iff hc).mp hnc).imp_left Eq.symm

theorem exists_fills_step (htree : SelectedTree m.genesisHash st)
    (hnext : chainParent st m.genesisHash next = some current)
    (hchain : OnChain (chainParent st m.genesisHash) next highHash) :
    (∃ hash, Fills m st dag lowHash highHash maxBlocks current hash) ↔
      (outside dag lowHash current).ncard + (mergedBy dag current next).ncard ≤ maxBlocks ∧
      ((outside dag lowHash next).ncard = maxBlocks ∨ ∃ hash, Fills m st dag lowHash highHash maxBlocks next hash) := by
  have hlt := htree.rank next current hnext
  have hstep : OnChain (chainParent st m.genesisHash) current next := .single hnext
  constructor
  · rintro ⟨hash, h⟩
    have habove : OnChain (chainParent st m.genesisHash) next hash := by
      rcases hchain.total h.below with hle | hge
      · exact hle
      rcases (onChain_iff hnext).mp hge with rfl | hcurrent
      · exact .refl
      · exact absurd (hcurrent.eq_of_rank_le htree.rank (OnChain.rank_le htree.rank h.above)) h.ne
    refine ⟨h.fits current next hnext .refl habove, ?_⟩
    by_cases heq : hash = next
    · exact .inl (heq ▸ h.full)
    · exact .inr ⟨hash, habove, heq, h.below, h.full, fun p c hc hp => h.fits p c hc (hstep.trans hp)⟩
  rintro ⟨hfits, hfull⟩
  have hfirst : ∀ p c, chainParent st m.genesisHash c = some p → c = next →
      (outside dag lowHash p).ncard + (mergedBy dag p c).ncard ≤ maxBlocks := by
    rintro p c hc rfl
    obtain rfl : current = p := Option.some.inj (hnext.symm.trans hc)
    exact hfits
  rcases hfull with hfull | ⟨hash, h⟩
  · refine ⟨next, hstep, fun heq => ?_, hchain, hfull, fun p c hc hp hcx => hfirst p c hc ?_⟩
    · rw [heq] at hlt
      exact lt_irrefl _ hlt
    refine (onChain_next_or htree hnext hc hp hcx .refl).resolve_right fun hnp => ?_
    have hle := OnChain.rank_le htree.rank hnp
    have hle' := OnChain.rank_le htree.rank hcx
    have hlt' := htree.rank c p hc
    omega
  · refine ⟨hash, hstep.trans h.above, fun heq => ?_, h.below, h.full, fun p c hc hp hcx => ?_⟩
    · have hle := OnChain.rank_le htree.rank h.above
      rw [heq] at hle
      omega
    rcases onChain_next_or htree hnext hc hp hcx h.above with heq | hnp
    · exact hfirst p c hc heq
    · exact h.fits p c hc hnp hcx

theorem collectMergeSets_full_iff (hdag : IsDAG g dag) (hst : Recorded g dag dag st)
    (htree : SelectedTree m.genesisHash st) (hpos : PositiveWork dag) (hancestors : m.AncestorsCorrect dag)
    (hchildren : m.ChildrenCorrect st) (hlow : lowHash ∈ hashes dag) (hhigh : Known st highHash) (hmax : maxBlocks ≠ 0)
    {n : ℕ} (hchain : OnChain (chainParent st m.genesisHash) current highHash)
    (hn : score st highHash < score st current + n) (h : Gathered dag lowHash current blockHashes)
    (hle : blockHashes.length ≤ maxBlocks) (high : DomainHash) :
    ∃ l high', collectMergeSets m st lowHash highHash maxBlocks n current blockHashes high = .ok (l, high') ∧
      l.length ≤ maxBlocks ∧ (high' = high ∨ score st current < score st high') ∧
      (l.length = maxBlocks ↔ blockHashes.length = maxBlocks ∨
        ∃ hash, Fills m st dag lowHash highHash maxBlocks current hash) := by
  induction n generalizing current blockHashes high with
  | zero =>
    have hle := OnChain.rank_le htree.rank hchain
    omega
  | succ n ih =>
    unfold collectMergeSets
    by_cases heq : current = highHash
    · rw [(hchildren highHash current hhigh hchain).1 heq]
      refine ⟨blockHashes, high, rfl, hle, .inl rfl, (or_iff_left ?_).symm⟩
      rintro ⟨hash, hfills⟩
      exact hfills.ne (hfills.below.eq_of_rank_le htree.rank (heq ▸ OnChain.rank_le htree.rank hfills.above) ▸ heq.symm)
    obtain ⟨c, hc, hparent, hchain'⟩ := (hchildren highHash current hhigh hchain).2 heq
    obtain ⟨sorted, hsorted, hsize, hmem, hstep⟩ := h.step hdag hst htree hpos hancestors hlow hparent
    have hlt := htree.rank c current hparent
    have hone : 0 < sorted.length := length_pos_of_mem hmem
    have hfilter := sorted.length_filter_le fun x => !m.isAncestorOf x lowHash
    rw [exists_fills_step htree hparent hchain', h.ncard_outside, hsize, hstep.ncard_outside]
    simp only [hc, hsorted, Except.mapError, ok_bind]
    by_cases hover : blockHashes.length + sorted.length > maxBlocks
    · rw [if_pos ⟨hmax, hover⟩]
      exact ⟨blockHashes, high, rfl, hle, .inl rfl, by rw [or_iff_left fun hfit => absurd hfit.1 (by omega)]⟩
    rw [if_neg fun hfull => hover hfull.2]
    have hle' : (blockHashes ++ sorted.filter fun x => !m.isAncestorOf x lowHash).length ≤ maxBlocks := by
      rw [length_append]
      omega
    obtain ⟨l, high', hl, hlength, hhigh', hiff⟩ := ih hchain' (by omega) hstep hle' c
    refine ⟨l, high', hl, hlength, .inr ?_, ?_⟩
    · rcases hhigh' with rfl | habove
      · exact hlt
      · exact hlt.trans habove
    rw [hiff, or_iff_right (show blockHashes.length ≠ maxBlocks by omega), and_iff_right (by omega)]

end

/-- With a bound, the result exceeds it, by `highHash`, exactly if the merge sets of the chain fill it. -/
theorem antiPastHashesBetween_length_le_iff {g : Ghostdag.Manager} {powMax : ℕ} {dag : List Block}
    (hdag : Validated g powMax dag) (hlen : dag.length < 2 ^ 64) (hst : Recorded g dag dag st)
    (hgenesis : m.genesisHash = g.genesisHash) (hchains : m.ChainsCorrect st)
    (hchildren : m.ChildrenCorrect st) (hancestors : m.AncestorsCorrect dag) {rounds : ℕ}
    (hrounds : dag.length < rounds) {lowHash highHash : DomainHash} (hlow : lowHash ∈ hashes dag)
    (hhigh : highHash ∈ hashes dag) {maxBlocks : ℕ} (hmax : m.mergeSetSizeLimit + 1 ≤ maxBlocks) :
    ∃ blocks actualHighHash start,
      antiPastHashesBetween m st rounds lowHash highHash maxBlocks = .ok (blocks, actualHighHash) ∧
      Meets m st lowHash highHash start ∧ blocks.length ≤ maxBlocks + 1 ∧
      (blocks.length ≤ maxBlocks ↔ ¬ ∃ hash, Fills m st dag lowHash highHash maxBlocks start hash) := by
  have htree : SelectedTree m.genesisHash st := hgenesis ▸ selectedTree_of_recorded hdag.toIsDAG hst hlen
  have hhigh' : Known st highHash := hst.knows.data highHash hhigh
  have hlowScore := score_le hdag.toIsDAG hst hlen hlow
  have hhighScore := score_le hdag.toIsDAG hst hlen hhigh
  obtain ⟨start, hmeets, hreturns⟩ := antiPastHashesBetween_eq htree hchains (hst.knows.data lowHash hlow) hhigh'
    (show score st lowHash < rounds by omega) (show ¬ (maxBlocks ≠ 0 ∧ maxBlocks < m.mergeSetSizeLimit + 1) by omega)
  obtain ⟨l, high, hl, hlength, hreached, hiff⟩ := collectMergeSets_full_iff hdag.toIsDAG hst htree hdag.positiveWork
    hancestors hchildren hlow hhigh' (show maxBlocks ≠ 0 by omega) (n := rounds) hmeets.high (by omega)
    (hmeets.gathered hst htree) (Nat.zero_le _) highHash
  rw [length_nil, or_iff_right (show 0 ≠ maxBlocks by omega)] at hiff
  refine ⟨if start ≠ high then l ++ [high] else l, high, start, by rw [hreturns, hl]; rfl, hmeets, ?_⟩
  rw [← hiff]
  by_cases hsame : start = high
  · -- The loop has not started, because the chains meet at `highHash`.
    have hend : start = highHash := hsame.trans (hreached.resolve_right fun h => by simp [hsame] at h)
    have hnot : l.length ≠ maxBlocks := fun hfull => by
      obtain ⟨hash, h⟩ := hiff.mp hfull
      exact h.ne (h.below.eq_of_rank_le htree.rank (hend ▸ OnChain.rank_le htree.rank h.above) ▸ hend.symm)
    rw [if_neg (not_not.mpr hsame)]
    omega
  · rw [if_pos hsame, length_append, length_singleton]
    omega

/-! ## A manager over the stores -/

def managerOver (g : Ghostdag.Manager) (dag : List Block) (st : Stores) (mergeSetSizeLimit : ℕ) : Manager where
  toManager := managerOf g.genesisHash st
  isAncestorOf := g.isAncestorOf
  findNextAncestor high low := (hashes dag).find? fun c =>
    chainParent st g.genesisHash c == some low && chainHas g.genesisHash st c (score st high + 1) high
  mergeSetSizeLimit := mergeSetSizeLimit

theorem childrenCorrect_managerOver {g : Ghostdag.Manager} {dag : List Block} {st : Stores}
    (htree : SelectedTree g.genesisHash st) (honly : ∀ h, Known st h → h ∈ hashes dag) (limit : ℕ) :
    (managerOver g dag st limit).ChildrenCorrect st := by
  intro high low hhigh hchain
  have hiff : ∀ c, chainHas g.genesisHash st c (score st high + 1) high = true ↔
      OnChain (chainParent st g.genesisHash) c high := fun c => chainHas_iff htree (Nat.lt_succ_self _)
  constructor
  · rintro rfl
    refine List.find?_eq_none.mpr fun c _ => ?_
    simp only [Bool.and_eq_true, beq_iff_eq, hiff, not_and]
    intro hc hon
    -- The rank falls from a block to its selected parent and not along the chain.
    have hlt := htree.rank c low hc
    have hle := OnChain.rank_le htree.rank hon
    omega
  intro hne
  obtain heq | ⟨c, hparent, hon⟩ := Relation.ReflTransGen.cases_head hchain
  · exact absurd heq hne
  have hc := honly c (htree.known_of_onChain hon hhigh)
  have hfound : chainParent st g.genesisHash c == some low &&
      chainHas g.genesisHash st c (score st high + 1) high := by
    rw [hiff c |>.mpr hon, show chainParent st g.genesisHash c = some low from hparent]
    simp
  cases hfind : (managerOver g dag st limit).findNextAncestor high low with
  | none => exact absurd hfound (List.find?_eq_none.mp hfind c hc)
  | some c' =>
    have hprop := List.find?_some hfind
    simp only [Bool.and_eq_true, beq_iff_eq, hiff] at hprop
    exact ⟨c', rfl, hprop⟩

theorem antiPastHashesBetween_spec_diamond : Validated diamondManager (2 ^ 255 - 1) diamond ∧ ¬ InPast diamond 4 2 ∧
      ∃ blocks, antiPastHashesBetween (managerOver diamondManager diamond diamondStores 10) diamondStores 5 2 4 0
          = .ok (blocks, 4) ∧ blocks.Nodup := by
  obtain ⟨hdag, hcorrect⟩ := isDAG_of_checkDAG diamond_checkDAG
  have hvalid : Validated diamondManager (2 ^ 255 - 1) diamond :=
    ⟨hdag, by decide +kernel, by decide +kernel, by decide +kernel⟩
  have htree := selectedTree_of_recorded hdag diamond_recorded (by decide)
  have hnot : ¬ InPast diamond 4 2 := fun h =>
    absurd ((hcorrect 4 (by decide) 2 (by decide)).mpr h.1) (by decide +kernel)
  obtain ⟨blocks, hblocks, hnodup, -⟩ := antiPastHashesBetween_spec
    (managerOver diamondManager diamond diamondStores 10) diamondStores hvalid (by decide) diamond_recorded rfl
    (chainsCorrect_managerOf htree)
    (childrenCorrect_managerOver htree (fun h ⟨d, hd⟩ => diamond_recorded.only h d hd) 10) hcorrect
    (show diamond.length < 5 by decide) 2 4 (by decide) (by decide) hnot
  exact ⟨hvalid, hnot, blocks, hblocks, hnodup⟩

def chainOfFour : List Block := [⟨1, [], 0x207fffff⟩, ⟨2, [1], 0x207fffff⟩, ⟨3, [2], 0x207fffff⟩, ⟨4, [3], 0x207fffff⟩]

def chainOfFourManager : Ghostdag.Manager := ⟨2, 1, ancestorIn chainOfFour 4⟩

def chainOfFourStores : Stores :=
  (addBlocks chainOfFourManager 4 chainOfFour Stores.empty).toOption.getD Stores.empty

/-- On a chain, where merge sets have one block, three blocks are returned with the bound 2. -/
theorem antiPastHashesBetween_exceeds_maxBlocks : checkDAG chainOfFourManager chainOfFour = true ∧
      (∀ b ∈ [2, 3, 4], (getSortedMergeSet chainOfFourStores b).toOption.map List.length = some 1) ∧
      antiPastHashesBetween (managerOver chainOfFourManager chainOfFour chainOfFourStores 1) chainOfFourStores 5 1 4 2 =
        .ok ([2, 3, 4], 4) := by decide +kernel

/-- With the bound 3 the three blocks fit. -/
theorem antiPastHashesBetween_length_le_iff_chainOfFour :
    antiPastHashesBetween (managerOver chainOfFourManager chainOfFour chainOfFourStores 1) chainOfFourStores 5 1 4 3 =
        .ok ([2, 3, 4], 4) ∧
      ∃ start, Meets (managerOver chainOfFourManager chainOfFour chainOfFourStores 1) chainOfFourStores 1 4 start ∧
        ¬ ∃ hash, Fills (managerOver chainOfFourManager chainOfFour chainOfFourStores 1) chainOfFourStores chainOfFour
          1 4 3 start hash := by
  have hreturns : antiPastHashesBetween (managerOver chainOfFourManager chainOfFour chainOfFourStores 1)
      chainOfFourStores 5 1 4 3 = .ok ([2, 3, 4], 4) := by decide +kernel
  have hcheck : checkDAG chainOfFourManager chainOfFour = true := by decide +kernel
  obtain ⟨hdag, hcorrect⟩ := isDAG_of_checkDAG hcheck
  have hvalid : Validated chainOfFourManager (2 ^ 255 - 1) chainOfFour :=
    ⟨hdag, by decide +kernel, by decide +kernel, by decide +kernel⟩
  have hst : Recorded chainOfFourManager chainOfFour chainOfFour chainOfFourStores :=
    recorded_of_checkDAG hcheck (by decide) (by decide)
  have htree := selectedTree_of_recorded hdag hst (by decide)
  obtain ⟨blocks, high, start, heq, hmeets, -, hiff⟩ := antiPastHashesBetween_length_le_iff
    (managerOver chainOfFourManager chainOfFour chainOfFourStores 1) chainOfFourStores hvalid (by decide) hst rfl (chainsCorrect_managerOf htree)
    (childrenCorrect_managerOver htree (fun h ⟨d, hd⟩ => hst.only h d hd) 1) hcorrect
    (show chainOfFour.length < 5 by decide) (show 1 ∈ hashes chainOfFour by decide)
    (show 4 ∈ hashes chainOfFour by decide) (show 1 + 1 ≤ 3 by decide)
  cases hreturns.symm.trans heq
  exact ⟨hreturns, start, hmeets, hiff.mp (by decide)⟩

end Kaspad.Sync
