import Kaspad.Ghostdag.Past
import Kaspad.Lib.ParentChain

/-! # Walking the selected chain

`LowestChainBlockAboveOrEqualToBlueScore` and `CalculateChainPath` of
`domain/consensus/processes/dagtraversalmanager/dagtraversalmanager.go`, on a GHOSTDAG data store
whose selected parents lead to genesis with falling blue scores. `IsInSelectedParentChainOf` of the
DAG topology manager is a field of the manager. A loop takes a number of rounds and reports `running`
when it does not suffice.
-/

namespace Kaspad.Traversal
open Lib Lib.ParentChain Ghostdag List

inductive TraversalError
  | ghostdag (error : GhostdagError)
  /-- "the given blue score %d is higher than block %s blue score of %d" -/
  | blueScoreIsHigher (blueScore : ℕ) (highHash : DomainHash) (highBlueScore : ℕ)
  /-- "highHash and lowHash are not in the same selected parent chain." -/
  | notInTheSameSelectedParentChain
  | running
  deriving DecidableEq, Repr

structure Manager where
  genesisHash : DomainHash
  isInSelectedParentChainOf : DomainHash → DomainHash → Bool

def ghostdagData (st : Stores) (hash : Option DomainHash) : Except TraversalError BlockGHOSTDAGData :=
  (st.get hash false).mapError .ghostdag

variable (m : Manager) (st : Stores)

def lowestChainBlockLoop (blueScore : ℕ) : ℕ → DomainHash → BlockGHOSTDAGData → Except TraversalError DomainHash
  | 0, _, _ => throw .running
  | n + 1, currentHash, currentBlockGHOSTDAGData =>
    if currentHash = m.genesisHash then pure currentHash
    else do
      let selectedParentBlockGHOSTDAGData ← ghostdagData st currentBlockGHOSTDAGData.selectedParent
      if selectedParentBlockGHOSTDAGData.blueScore < blueScore then pure currentHash
      else
        match currentBlockGHOSTDAGData.selectedParent with
        | none => throw (.ghostdag .nilHash)
        | some selectedParent =>
          lowestChainBlockLoop blueScore n selectedParent selectedParentBlockGHOSTDAGData

def lowestChainBlockAboveOrEqualToBlueScore (rounds : ℕ) (highHash : DomainHash) (blueScore : ℕ) :
    Except TraversalError DomainHash := do
  let highBlockGHOSTDAGData ← ghostdagData st highHash
  if highBlockGHOSTDAGData.blueScore < blueScore then
    throw (.blueScoreIsHigher blueScore highHash highBlockGHOSTDAGData.blueScore)
  else lowestChainBlockLoop m st blueScore rounds highHash highBlockGHOSTDAGData

def walkDown (stop : DomainHash → Bool) :
    ℕ → DomainHash → List DomainHash → Except TraversalError (List DomainHash × DomainHash)
  | 0, _, _ => throw .running
  | n + 1, current, walked =>
    if stop current then pure (walked, current)
    else do
      let currentGHOSTDAGData ← ghostdagData st current
      match currentGHOSTDAGData.selectedParent with
      | none => throw (.ghostdag .nilHash)
      | some selectedParent => walkDown stop n selectedParent (walked ++ [current])

structure SelectedChainPath where
  added : List DomainHash
  removed : List DomainHash
  deriving DecidableEq, Repr

def calculateChainPath (rounds : ℕ) (fromBlockHash toBlockHash : DomainHash) :
    Except TraversalError SelectedChainPath := do
  let (removed, commonAncestor) ←
    walkDown st (fun current => m.isInSelectedParentChainOf current toBlockHash) rounds fromBlockHash []
  let (added, _) ← walkDown st (fun current => current == commonAncestor) rounds toBlockHash []
  pure { added := added.reverse, removed := removed }

/-! ## Stores whose selected parents lead to genesis -/

/-- The selected parent; the chain of a block ends at genesis. -/
def chainParent (genesisHash : DomainHash) (hash : DomainHash) : Option DomainHash :=
  if hash = genesisHash then none else (st.data.lookup hash).bind (·.selectedParent)

def score (hash : DomainHash) : ℕ := (st.data.lookup hash).elim 0 (·.blueScore)

def Known (hash : DomainHash) : Prop := ∃ d, st.data.lookup hash = some d

/-- Every known block but genesis has a known selected parent with a lower blue score. -/
structure SelectedTree (genesisHash : DomainHash) (st : Stores) : Prop where
  genesis : Known st genesisHash
  parent : ∀ h d, st.data.lookup h = some d → h ≠ genesisHash →
    ∃ p dp, d.selectedParent = some p ∧ st.data.lookup p = some dp ∧ dp.blueScore < d.blueScore

/-- The reachability manager answers what the selected parents say. -/
def Manager.ChainsCorrect (m : Manager) (st : Stores) : Prop :=
  ∀ a b, Known st a → Known st b →
    (m.isInSelectedParentChainOf a b = true ↔ OnChain (chainParent st m.genesisHash) a b)

section
variable {m st} {genesisHash a b c p : DomainHash} {d : BlockGHOSTDAGData}

theorem score_eq (h : st.data.lookup c = some d) : score st c = d.blueScore := by simp [score, h]

theorem ghostdagData_eq (h : st.data.lookup c = some d) : ghostdagData st c = .ok d := by
  simp [ghostdagData, Stores.get, lookupOrFail, h, pure, Except.pure, Except.mapError]

theorem chainParent_genesis : chainParent st genesisHash genesisHash = none := by simp [chainParent]

variable (htree : SelectedTree genesisHash st)
include htree

theorem SelectedTree.parent_spec (h : chainParent st genesisHash c = some p) :
    Known st p ∧ score st p < score st c ∧ ∃ d, st.data.lookup c = some d ∧ d.selectedParent = some p := by
  unfold chainParent at h
  split_ifs at h with hne
  cases hd : st.data.lookup c with
  | none => simp [hd] at h
  | some d =>
    have hsp : d.selectedParent = some p := by simpa [hd] using h
    obtain ⟨q, dq, hq, hdq, hlt⟩ := htree.parent c d hd hne
    obtain rfl : q = p := by simpa [hq] using hsp
    exact ⟨⟨dq, hdq⟩, by rwa [score_eq hdq, score_eq hd], d, rfl, hsp⟩

theorem SelectedTree.rank (c p : DomainHash) (h : chainParent st genesisHash c = some p) : score st p < score st c :=
  (htree.parent_spec h).2.1

theorem SelectedTree.exists_parent (hc : Known st c) (hne : c ≠ genesisHash) :
    ∃ p, chainParent st genesisHash c = some p := by
  obtain ⟨d, hd⟩ := hc
  obtain ⟨p, -, hp, -, -⟩ := htree.parent c d hd hne
  exact ⟨p, by simp [chainParent, hne, hd, hp]⟩

theorem SelectedTree.known_of_onChain (h : OnChain (chainParent st genesisHash) a c) (hc : Known st c) :
    Known st a := by
  induction h with
  | refl => exact hc
  | tail _ hpc ih => exact ih (htree.parent_spec hpc).1

theorem SelectedTree.genesis_onChain (hc : Known st c) : OnChain (chainParent st genesisHash) genesisHash c := by
  -- The blue score falls along the chain.
  induction hn : score st c using Nat.strong_induction_on generalizing c with
  | _ n ih =>
    by_cases hne : c = genesisHash
    · rw [hne]
      exact .refl
    obtain ⟨p, hp⟩ := htree.exists_parent hc hne
    obtain ⟨hknown, hlt, -⟩ := htree.parent_spec hp
    exact onChain_step hp (ih _ (hn ▸ hlt) hknown rfl)

variable {g : Ghostdag.Manager} {dag : List Block} {n blueScore : ℕ}

omit htree in
theorem selectedTree_of_recorded (hdag : IsDAG g dag) (hst : Recorded g dag dag st)
    (hlen : dag.length < 2 ^ 64) : SelectedTree g.genesisHash st := by
  obtain ⟨bits, rest, heq, -⟩ := hdag.genesis
  refine ⟨hst.knows.data _ (by simp [heq, hashes]), fun h d hd hne => ?_⟩
  have hh := hst.only h d hd
  obtain ⟨ds, hchain, hsized⟩ := hst.chain h hh
  have hscore := hst.blueScore_eq hdag hlen hchain hsized.nodup hh hd
  cases hchain with
  | genesis => exact absurd rfl hne
  | @cons _ sp d' ds hd' _ hparent hedge _ htail =>
    cases hd.symm.trans hd'
    obtain ⟨b, hb, hhash⟩ := mem_map.mp hh
    have hparents : b.parents ≠ [] := fun hnil => hne (hhash ▸ (hdag.hash_eq_genesis_iff hb).mpr hnil)
    obtain ⟨d', sp', hd', hmerge⟩ := hst.mergeData b hb hparents
    rw [hhash] at hd'
    cases hd.symm.trans hd'
    cases hparent.symm.trans hmerge.selectedParent
    obtain ⟨dsp, hdsp, -⟩ := hmerge.blueScore
    have htailScore := hst.blueScore_eq hdag hlen htail (nodup_append.mp hsized.nodup).2.1
      (hdag.parent_mem hedge) hdsp
    have hlength : (chainBlues (d :: ds)).length = d.mergeSetBlues.length + (chainBlues ds).length := by
      simp [chainBlues]
    rw [hmerge.first, length_cons] at hlength
    exact ⟨sp, dsp, hparent, hdsp, by omega⟩

omit htree in
theorem score_le (hdag : IsDAG g dag) (hst : Recorded g dag dag st) (hlen : dag.length < 2 ^ 64)
    {h : DomainHash} (hh : h ∈ hashes dag) : score st h ≤ dag.length := by
  obtain ⟨d, hd⟩ := hst.knows.data h hh
  obtain ⟨ds, hchain, hsized⟩ := hst.chain h hh
  rw [score_eq hd, hst.blueScore_eq hdag hlen hchain hsized.nodup hh hd]
  have hsub := (subperm_of_subset hsized.nodup fun x hx =>
    hdag.ancestor_mem (hchain.blues_below x hx).1 hh).length_le
  simpa [hashes] using hsub

theorem SelectedTree.mergeData (hst : Recorded g dag dag st) (h : chainParent st genesisHash c = some p) :
    ∃ b ∈ dag, b.hash = c ∧ ∃ d, st.data.lookup c = some d ∧ MergeData dag st b d p := by
  obtain ⟨-, -, d, hd, hsp⟩ := htree.parent_spec h
  obtain ⟨b, hb, rfl⟩ := mem_map.mp (hst.only c d hd)
  have hne : b.parents ≠ [] := by
    intro hnil
    cases hd.symm.trans (hst.genesisData b hb hnil)
    simp at hsp
  obtain ⟨d', sp, hd', hmerge⟩ := hst.mergeData b hb hne
  cases hd.symm.trans hd'
  cases hsp.symm.trans hmerge.selectedParent
  exact ⟨b, hb, rfl, d, hd, hmerge⟩

theorem SelectedTree.ancestor (hst : Recorded g dag dag st)
    (h : OnChain (chainParent st genesisHash) a b) : Ancestor dag a b := by
  induction h with
  | refl => exact .refl
  | @tail p c _ hpc ih =>
    obtain ⟨blk, hblk, rfl, d, -, hmerge⟩ := htree.mergeData hst hpc
    exact ih.tail ⟨blk, hblk, rfl, hmerge.mem⟩

/-! ## Deciding the chain -/

omit htree in
def chainHas (genesisHash : DomainHash) (st : Stores) (a : DomainHash) : ℕ → DomainHash → Bool
  | 0, _ => false
  | n + 1, b => a == b || (chainParent st genesisHash b).any (chainHas genesisHash st a n)

theorem chainHas_iff (hn : score st b < n) :
    chainHas genesisHash st a n b = true ↔ OnChain (chainParent st genesisHash) a b := by
  induction n generalizing b with
  | zero => omega
  | succ n ih =>
    unfold chainHas
    cases hp : chainParent st genesisHash b with
    | none =>
      simp only [Option.any_none, Bool.or_false, beq_iff_eq]
      exact ⟨fun h => h ▸ .refl, onChain_of_none hp⟩
    | some p =>
      have hlt := htree.rank b p hp
      simp only [Option.any_some, Bool.or_eq_true, beq_iff_eq, ih (show score st p < n by omega)]
      exact (onChain_iff hp).symm

omit htree in
def managerOf (genesisHash : DomainHash) (st : Stores) : Manager :=
  ⟨genesisHash, fun a b => chainHas genesisHash st a (score st b + 1) b⟩

theorem chainsCorrect_managerOf : (managerOf genesisHash st).ChainsCorrect st :=
  fun _ _ _ _ => chainHas_iff htree (Nat.lt_succ_self _)

/-! ## The walks -/

def IsLowestAbove (genesisHash : DomainHash) (st : Stores) (highHash : DomainHash) (blueScore : ℕ)
    (c : DomainHash) : Prop :=
  OnChain (chainParent st genesisHash) c highHash ∧ blueScore ≤ score st c ∧
    ∀ p, chainParent st genesisHash c = some p → score st p < blueScore

omit htree in
theorem lowestChainBlockLoop_spec (htree : SelectedTree m.genesisHash st)
    (hd : st.data.lookup c = some d) (hscore : blueScore ≤ score st c) (hn : score st c < n) :
    ∃ l, lowestChainBlockLoop m st blueScore n c d = .ok l ∧ IsLowestAbove m.genesisHash st c blueScore l := by
  induction n generalizing c d with
  | zero => omega
  | succ n ih =>
    unfold lowestChainBlockLoop
    split_ifs with hgenesis
    · refine ⟨c, rfl, .refl, hscore, fun p hp => ?_⟩
      rw [hgenesis, chainParent_genesis] at hp
      simp at hp
    obtain ⟨p, dp, hp, hdp, hlt⟩ := htree.parent c d hd hgenesis
    have hparent : chainParent st m.genesisHash c = some p := by simp [chainParent, hgenesis, hd, hp]
    simp only [hp, ghostdagData_eq hdp, ok_bind]
    split_ifs with hbelow
    · refine ⟨c, rfl, .refl, hscore, fun q hq => ?_⟩
      obtain rfl : p = q := by simpa [hparent] using hq
      rwa [score_eq hdp]
    have hrank := htree.rank c p hparent
    obtain ⟨l, hl, hchain, hrest⟩ := ih hdp (by rw [score_eq hdp]; omega) (by omega)
    exact ⟨l, hl, onChain_step hparent hchain, hrest⟩

variable {rounds : ℕ}

omit htree in
theorem lowestChainBlock_spec (htree : SelectedTree m.genesisHash st) (hc : Known st c)
    (hscore : blueScore ≤ score st c) (hrounds : score st c < rounds) :
    ∃ l, lowestChainBlockAboveOrEqualToBlueScore m st rounds c blueScore = .ok l ∧
      IsLowestAbove m.genesisHash st c blueScore l := by
  obtain ⟨d, hd⟩ := hc
  obtain ⟨l, hl, hlowest⟩ := lowestChainBlockLoop_spec htree hd hscore hrounds
  refine ⟨l, ?_, hlowest⟩
  unfold lowestChainBlockAboveOrEqualToBlueScore
  rw [score_eq hd] at hscore
  simp only [ghostdagData_eq hd, ok_bind, if_neg (Nat.not_lt.mpr hscore), hl]

theorem IsLowestAbove.unique {highHash : DomainHash} (ha : IsLowestAbove genesisHash st highHash blueScore a)
    (hb : IsLowestAbove genesisHash st highHash blueScore b) : a = b := by
  -- Of two different ones the upper one has a parent that is not below the other.
  have hle : ∀ {a b}, IsLowestAbove genesisHash st highHash blueScore a →
      IsLowestAbove genesisHash st highHash blueScore b →
      OnChain (chainParent st genesisHash) a b → a = b := by
    intro a b ha hb hab
    obtain heq | ⟨p, hap, hp⟩ := Relation.ReflTransGen.cases_tail hab
    · exact heq.symm
    have hlt := hb.2.2 p hp
    have hrank := OnChain.rank_le htree.rank hap
    have := ha.2.1
    omega
  rcases ha.1.total hb.1 with h | h
  · exact hle ha hb h
  · exact (hle hb ha h).symm

theorem walkDown_spec (stop : DomainHash → Bool) {l : List DomainHash} (walked : List DomainHash)
    (hl : Descent (chainParent st genesisHash) c l a) (hwalk : ∀ x ∈ l, stop x = false)
    (hstop : stop a = true) (hn : l.length < n) : walkDown st stop n c walked = .ok (walked ++ l, a) := by
  induction n generalizing c l walked with
  | zero => omega
  | succ n ih =>
    unfold walkDown
    cases l with
    | nil =>
      obtain rfl : c = a := hl
      rw [if_pos hstop, append_nil]
      rfl
    | cons x l =>
      obtain ⟨rfl, p, hp, hrest⟩ := hl
      obtain ⟨-, -, d, hd, hsp⟩ := htree.parent_spec hp
      rw [if_neg (by simp [hwalk x])]
      simp only [ghostdagData_eq hd, ok_bind, hsp]
      rw [ih _ hrest (fun y hy => hwalk y (by simp [hy])) (by simpa using hn)]
      simp

omit htree

theorem calculateChainPath_spec (htree : SelectedTree m.genesisHash st)
    (hcorrect : m.ChainsCorrect st) (ha : Known st a) (hb : Known st b)
    (hrounds : max (score st a) (score st b) < rounds) :
    ∃ common removed added, Descent (chainParent st m.genesisHash) a removed common ∧
      Descent (chainParent st m.genesisHash) b added common ∧
      (∀ x ∈ removed, ¬ OnChain (chainParent st m.genesisHash) x b) ∧
      calculateChainPath m st rounds a b = .ok ⟨added.reverse, removed⟩ := by
  obtain ⟨down, hdown⟩ := exists_descent (htree.genesis_onChain ha)
  obtain ⟨common, removed, hremoved, hcommon, hnot⟩ :=
    hdown.first (P := fun x => OnChain (chainParent st m.genesisHash) x b) (htree.genesis_onChain hb)
  obtain ⟨added, hadded⟩ := exists_descent hcommon
  have hknown : ∀ x, OnChain (chainParent st m.genesisHash) x a → Known st x :=
    fun x hx => htree.known_of_onChain hx ha
  have hlen := hremoved.length_le htree.rank
  have hlen' := hadded.length_le htree.rank
  refine ⟨common, removed, added, hremoved, hadded, hnot, ?_⟩
  have hfirst := walkDown_spec htree (fun x => m.isInSelectedParentChainOf x b) (n := rounds) [] hremoved
    (fun x hx => by
      have hx' := (hremoved.mem htree.rank hx).1
      simpa [← hcorrect x b (hknown x hx') hb] using hnot x hx)
    ((hcorrect common b (hknown common hremoved.onChain) hb).mpr hcommon) (by omega)
  have hsecond := walkDown_spec htree (fun x => x == common) (n := rounds) [] hadded (fun x hx => by
      have hlt := (hadded.mem htree.rank hx).2.2
      simp only [beq_eq_false_iff_ne]
      rintro rfl
      omega) (by simp) (by omega)
  unfold calculateChainPath
  simp only [hfirst, hsecond, ok_bind, nil_append]
  rfl

/-- What is to be taken off the selected chain of the first block, and put there, to get that of the second one. -/
theorem calculateChainPath_rebases (hdag : IsDAG g dag) (hlen : dag.length < 2 ^ 64) (hst : Recorded g dag dag st)
    (hgenesis : m.genesisHash = g.genesisHash) (hcorrect : m.ChainsCorrect st) {rounds : ℕ}
    (hrounds : dag.length < rounds) {fromBlockHash toBlockHash : DomainHash} (hfrom : fromBlockHash ∈ hashes dag)
    (hto : toBlockHash ∈ hashes dag) :
    ∃ path kept, calculateChainPath m st rounds fromBlockHash toBlockHash = .ok path ∧
      Descent (chainParent st m.genesisHash) fromBlockHash (path.removed ++ kept) m.genesisHash ∧
      Descent (chainParent st m.genesisHash) toBlockHash (path.added.reverse ++ kept) m.genesisHash ∧
      ∀ x ∈ path.removed, x ∉ path.added := by
  have htree : SelectedTree m.genesisHash st := hgenesis ▸ selectedTree_of_recorded hdag hst hlen
  have hknown := hst.knows.data fromBlockHash hfrom
  have hfromScore := score_le hdag hst hlen hfrom
  have htoScore := score_le hdag hst hlen hto
  obtain ⟨common, removed, added, hremoved, hadded, hnot, hpath⟩ := calculateChainPath_spec htree hcorrect hknown
    (hst.knows.data toBlockHash hto) (max_lt (hfromScore.trans_lt hrounds) (htoScore.trans_lt hrounds))
  obtain ⟨kept, hkept⟩ := exists_descent (htree.genesis_onChain (htree.known_of_onChain hremoved.onChain hknown))
  refine ⟨_, kept, hpath, hremoved.append hkept, ?_, fun x hx hx' => ?_⟩
  · rw [reverse_reverse]
    exact hadded.append hkept
  · exact hnot x hx (hadded.mem htree.rank (mem_reverse.mp hx')).1

end

theorem calculateChainPath_rebases_diamond :
    ∃ path, calculateChainPath (managerOf 1 diamondStores) diamondStores 5 2 4 = .ok path ∧
      ∀ x ∈ path.removed, x ∉ path.added := by
  obtain ⟨hdag, -⟩ := isDAG_of_checkDAG diamond_checkDAG
  have htree := selectedTree_of_recorded hdag diamond_recorded (by decide)
  obtain ⟨path, -, hpath, -, -, hdisjoint⟩ := calculateChainPath_rebases (m := managerOf 1 diamondStores)
    hdag (by decide) diamond_recorded rfl (chainsCorrect_managerOf htree) (show diamond.length < 5 by decide)
    (show 2 ∈ hashes diamond by decide) (show 4 ∈ hashes diamond by decide)
  exact ⟨path, hpath, hdisjoint⟩

end Kaspad.Traversal
