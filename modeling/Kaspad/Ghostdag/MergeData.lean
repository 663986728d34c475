import Kaspad.Ghostdag.MergeSet

/-! # What GHOSTDAG records of a block

The selected parent of a block is the greatest of its parents. It stands first among the merged blues,
and the rest of the blues and the reds are the merge set, both by blue work and hash.
-/

namespace Kaspad.Ghostdag
open Lib Lib.Dag List

structure MergeData (dag : List Block) (st : Stores) (b : Block) (d : BlockGHOSTDAGData)
    (sp : DomainHash) : Prop where
  selectedParent : d.selectedParent = some sp
  mem : sp ∈ b.parents
  greatest : ∀ p ∈ b.parents, st.key p ≤ st.key sp
  first : d.mergeSetBlues = sp :: d.mergeSetBlues.tail
  nodup : (d.mergeSetBlues.tail ++ d.mergeSetReds).Nodup
  merged : ∀ x, x ∈ d.mergeSetBlues.tail ++ d.mergeSetReds ↔ Merged dag sp b.parents x
  sortedBlues : d.mergeSetBlues.tail.Pairwise fun x y => st.key x ≤ st.key y
  sortedReds : d.mergeSetReds.Pairwise fun x y => st.key x ≤ st.key y
  blueScore : ∃ dsp, st.data.lookup sp = some dsp ∧ d.blueScore = (dsp.blueScore + d.mergeSetBlues.length) % 2 ^ 64

/-- No header has a target so high that it carries no work. -/
def PositiveWork (dag : List Block) : Prop := ∀ b ∈ dag, 0 < Difficulty.calcWork b.bits

theorem colorMergeSet_split {m : Manager} {rounds : ℕ} {st : Stores} {candidates : List DomainHash}
    {d d' : BlockGHOSTDAGData} (h : colorMergeSet m rounds st candidates d = .ok d') :
    ∃ blues reds, d'.mergeSetBlues = d.mergeSetBlues ++ blues ∧ d'.mergeSetReds = d.mergeSetReds ++ reds ∧
      d'.selectedParent = d.selectedParent ∧ blues.Sublist candidates ∧ reds.Sublist candidates ∧
      (blues ++ reds).Perm candidates := by
  induction candidates generalizing d with
  | nil =>
    obtain rfl : d = d' := by simpa [colorMergeSet, pure, Except.pure] using h
    exact ⟨[], [], by simp, by simp, rfl, .slnil, .slnil, .refl _⟩
  | cons c candidates ih =>
    unfold colorMergeSet at h
    cases hcheck : checkBlueCandidate m rounds st d c with
    | error e => simp [hcheck] at h
    | ok verdict =>
      simp only [hcheck, ok_bind] at h
      cases verdict with
      | none =>
        obtain ⟨blues, reds, hblues, hreds, hsp, hsub, hsub', hperm⟩ := ih h
        exact ⟨blues, c :: reds, hblues, by simpa using hreds, hsp, hsub.cons c, hsub'.cons_cons c,
          perm_middle.trans (hperm.cons c)⟩
      | some sizes =>
        obtain ⟨blues, reds, hblues, hreds, hsp, hsub, hsub', hperm⟩ := ih h
        exact ⟨c :: blues, reds, by simpa using hblues, hreds, hsp, hsub.cons_cons c, hsub'.cons c, hperm.cons c⟩

variable {m : Manager} {dag pre post : List Block} {st : Stores} {b : Block} {n : ℕ}

theorem work_lt_of_parents (hdag : IsDAG m dag) (heq : dag = pre ++ post)
    (hwork : ∀ b ∈ pre, ∀ p ∈ b.parents, st.work p < st.work b.hash) {a b : DomainHash} (h : Ancestor dag a b)
    (hb : b ∈ hashes pre) (hne : a ≠ b) : st.work a < st.work b := by
  induction h with
  | refl => exact absurd rfl hne
  | @tail c b hac hcb ih =>
    have hc := hdag.ancestor_mem_pre heq (Relation.ReflTransGen.single hcb) hb
    obtain ⟨blk, hblk, rfl, hp⟩ := hcb
    obtain ⟨blk', hblk', hhash⟩ := mem_map.mp hb
    obtain rfl := hdag.block_ext hblk (heq ▸ mem_append_left _ hblk') hhash.symm
    have hlt := hwork blk hblk' c hp
    by_cases hac' : a = c
    · rwa [hac']
    · exact (ih hc hac').trans hlt

theorem addWork_spec (hst : st.Knows pre) (hvirtual : virtualGenesisBlockHash ∉ hashes pre)
    {blues : List DomainHash} (hblues : ∀ b ∈ blues, b ∈ hashes pre) (w : ℕ) :
    ∃ w', addWork st blues w = .ok w' ∧ w ≤ w' ∧
      ((∀ b ∈ pre, 0 < Difficulty.calcWork b.bits) → blues ≠ [] → w < w') := by
  induction blues generalizing w with
  | nil => exact ⟨w, rfl, le_rfl, by simp⟩
  | cons blue blues ih =>
    obtain ⟨b, hb, hhash⟩ := mem_map.mp (hblues blue (by simp))
    have hne : blue ≠ virtualGenesisBlockHash := by
      rintro rfl
      exact hvirtual (hblues _ (by simp))
    have hbits := lookupOrFail_eq (hhash ▸ hst.bits b hb)
    obtain ⟨w', hw', hle, -⟩ := ih (fun x hx => hblues x (by simp [hx])) (w + Difficulty.calcWork b.bits)
    refine ⟨w', by simpa [addWork, hne, hbits] using hw', by omega, fun hpos _ => ?_⟩
    have hwork := hpos b hb
    omega

theorem Topological.notMem_pre (hdag : Topological dag) (heq : dag = pre ++ b :: post) : b.hash ∉ hashes pre := by
  have hnodup := hdag.nodup
  unfold hashes at hnodup ⊢
  rw [heq, map_append, map_cons] at hnodup
  exact fun h => (nodup_append.mp hnodup).2.2 _ h _ (by simp) rfl

theorem IsDAG.hash_eq_genesis_iff (hdag : IsDAG m dag) (hb : b ∈ dag) : b.hash = m.genesisHash ↔ b.parents = [] := by
  obtain ⟨bits, rest, heq, hrest⟩ := hdag.genesis
  constructor
  · intro h
    have hg : (⟨m.genesisHash, [], bits⟩ : Block) ∈ dag := by simp [heq]
    rw [hdag.block_ext hb hg h]
  intro h
  rw [heq] at hb
  rcases mem_cons.mp hb with rfl | hb
  · rfl
  · exact absurd h (hrest b hb)

variable {d : BlockGHOSTDAGData} {st' : Stores}

theorem ghostdag_mergeData (hdag : IsDAG m dag) (hcorrect : m.AncestorsCorrect dag)
    (heq : dag = pre ++ post) (hst : st.Knows pre) (hn : dag.length ≤ n)
    (hjoin : Joinable dag pre b.parents) (hparents : st.parents.lookup b.hash = some b.parents)
    (hne : b.parents ≠ []) (hd : ghostdag m n st b.hash = .ok d) :
    ∃ sp, MergeData dag st b d sp ∧ addWork st d.mergeSetBlues (st.work sp) = .ok d.blueWork := by
  have hpre := hjoin.mem
  obtain ⟨first, others, hfirst⟩ := exists_cons_of_ne_nil hne
  obtain ⟨sp, hsp, hfind, hmax⟩ := findSelectedParent_some
    (fun h hh => hst.data h (hpre h (hfirst ▸ hh))) (hfirst ▸ hjoin.nodup)
  rw [← hfirst] at hsp hmax
  obtain ⟨candidates, hmerge, hnodup, hmem, hsorted⟩ :=
    mergeSetWithoutSelectedParent_spec hdag hcorrect heq hst hjoin hsp hn
  obtain ⟨dsp, hdsp⟩ := hst.data sp (hpre sp hsp)
  unfold ghostdag at hd
  simp only [lookupOrFail_eq hparents, bind, Except.bind, hfirst, findSelectedParent, hfind] at hd
  rw [← hfirst] at hd
  simp only [hmerge, get_eq hdsp] at hd
  cases hcolor : colorMergeSet m n st candidates ⟨0, 0, sp, [sp], [], (∅ : GoMap DomainHash ℕ).insert sp 0⟩ with
  | error e => simp only [hcolor] at hd; cases hd
  | ok d' =>
    obtain ⟨blues, reds, hblues, hreds, hparent, hsub, hsub', hperm⟩ := colorMergeSet_split hcolor
    cases hwork : addWork st d'.mergeSetBlues dsp.blueWork with
    | error e => simp only [hcolor, hwork] at hd; cases hd
    | ok w =>
      simp only [hcolor, hwork, pure, Except.pure, Except.ok.injEq] at hd
      subst hd
      refine ⟨sp, ⟨hparent, hsp, hmax, ?_, ?_, fun x => ?_, ?_, ?_, dsp, hdsp, rfl⟩,
        by rw [Stores.work, hdsp]; exact hwork⟩ <;>
        simp only [hblues, hreds, nil_append, singleton_append, tail_cons]
      · exact hperm.nodup_iff.mpr hnodup
      · rw [hperm.mem_iff, hmem]
      · exact hsorted.sublist hsub
      · exact hsorted.sublist hsub'

/-! ## The whole DAG -/

def Stores.Grows (st st' : Stores) : Prop :=
  ∀ h d, st.data.lookup h = some d → st'.data.lookup h = some d

theorem Stores.Grows.key_eq (hgrows : st.Grows st') {h : DomainHash}
    (hh : ∃ d, st.data.lookup h = some d) : st'.key h = st.key h := by
  obtain ⟨d, hd⟩ := hh
  rw [Ghostdag.key_eq hd, Ghostdag.key_eq (hgrows h d hd)]

theorem MergeData.mono {sp : DomainHash} (h : MergeData dag st b d sp) (hgrows : st.Grows st')
    (hknown : ∀ x p, p ∈ b.parents → Ancestor dag x p → ∃ d, st.data.lookup x = some d) :
    MergeData dag st' b d sp := by
  have hkey : ∀ p ∈ b.parents, st'.key p = st.key p := fun p hp => hgrows.key_eq (hknown p p hp .refl)
  have hmerged : ∀ x ∈ d.mergeSetBlues.tail ++ d.mergeSetReds, st'.key x = st.key x := by
    intro x hx
    obtain ⟨⟨p, hp, -, hxp⟩, -⟩ := (h.merged x).mp hx
    exact hgrows.key_eq (hknown x p hp hxp)
  obtain ⟨dsp, hdsp, hscore⟩ := h.blueScore
  refine ⟨h.selectedParent, h.mem, fun p hp => ?_, h.first, h.nodup, h.merged,
    h.sortedBlues.imp_of_mem fun {x y} hx hy hxy => ?_, h.sortedReds.imp_of_mem fun {x y} hx hy hxy => ?_,
    dsp, hgrows sp dsp hdsp, hscore⟩
  · rw [hkey p hp, hkey sp h.mem]
    exact h.greatest p hp
  · rwa [hmerged x (by simp [hx]), hmerged y (by simp [hy])]
  · rwa [hmerged x (by simp [hx]), hmerged y (by simp [hy])]

/-! ## Adding a block -/

structure Kept (dag pre : List Block) (st : Stores) : Prop where
  knows : st.Knows pre
  only : ∀ h d, st.data.lookup h = some d → h ∈ hashes pre
  work : ∀ b ∈ pre, ∀ p ∈ b.parents, st.work p ≤ st.work b.hash ∧ (PositiveWork dag → st.work p < st.work b.hash)

def Stores.staged (st : Stores) (b : Block) : Stores :=
  { st with parents := st.parents.insert b.hash b.parents, bits := st.bits.insert b.hash b.bits }

theorem addBlock_eq (hadd : addBlock m n st b = .ok st') : ∃ d, ghostdag m n (st.staged b) b.hash = .ok d ∧
      st' = { st.staged b with data := st.data.insert b.hash d } := by
  unfold addBlock at hadd
  cases hd : ghostdag m n (st.staged b) b.hash with
  | error e =>
    rw [Stores.staged] at hd
    simp [hd] at hadd
  | ok d =>
    rw [Stores.staged] at hd
    simp only [hd, ok_bind, pure, Except.pure, Except.ok.injEq] at hadd
    exact ⟨d, rfl, hadd.symm⟩

section
variable (hdag : IsDAG m dag) (heq : dag = pre ++ b :: post)
include hdag heq

theorem Stores.Knows.staged (h : st.Knows pre) : (st.staged b).Knows pre := by
  have hold : ∀ c ∈ pre, c.hash ≠ b.hash := fun c hc h => hdag.notMem_pre heq (h ▸ mem_hashes hc)
  exact ⟨fun c hc => by simpa [Stores.staged, hold c hc] using h.parents c hc,
    fun c hc => by simpa [Stores.staged, hold c hc] using h.bits c hc, h.data⟩

theorem IsDAG.parent_mem_pre {c : Block} (hc : c ∈ pre ++ [b]) {p : DomainHash} (hp : p ∈ c.parents) :
    p ∈ hashes pre := by
  rcases mem_append.mp hc with hc | hc
  · exact hdag.ancestor_mem_pre heq (.single ⟨c, heq ▸ mem_append_left _ hc, rfl, hp⟩) (mem_hashes hc)
  rw [mem_singleton.mp hc] at hp
  exact hdag.earlier pre b post heq p hp

theorem ghostdag_kept (hcorrect : m.AncestorsCorrect dag) (hst : st.Knows pre) (hn : dag.length ≤ n)
    {d : BlockGHOSTDAGData} (hd : ghostdag m n (st.staged b) b.hash = .ok d) (hne : b.parents ≠ []) :
    ∃ sp, MergeData dag (st.staged b) b d sp ∧ ∀ p ∈ b.parents, st.work p ≤ d.blueWork ∧
      (PositiveWork dag → st.work p < d.blueWork) := by
  have hknows := hst.staged hdag heq
  obtain ⟨sp, hmerge, hwork⟩ := ghostdag_mergeData hdag hcorrect heq hknows hn (hdag.joinable heq)
    (by simp [Stores.staged]) hne hd
  refine ⟨sp, hmerge, fun p hp => ?_⟩
  have hblues : ∀ x ∈ d.mergeSetBlues, x ∈ hashes pre := by
    intro x hx
    rw [hmerge.first] at hx
    rcases mem_cons.mp hx with rfl | hx
    · exact hdag.parent_mem_pre heq (by simp) hmerge.mem
    obtain ⟨⟨q, hq, -, hxq⟩, -⟩ := (hmerge.merged x).mp (mem_append_left _ hx)
    exact hdag.ancestor_mem_pre heq hxq (hdag.parent_mem_pre heq (by simp) hq)
  obtain ⟨w, hw, hle, hlt⟩ := addWork_spec hknows (fun h => hdag.notVirtual (hashes_append heq h)) hblues
    ((st.staged b).work sp)
  obtain rfl : w = d.blueWork := Except.ok.inj (hw.symm.trans hwork)
  have hsp : st.work p ≤ st.work sp := by
    have hkey := Prod.Lex.toLex_le_toLex.mp (hmerge.greatest p hp)
    change st.work p < st.work sp ∨ st.work p = st.work sp ∧ p ≤ sp at hkey
    omega
  exact ⟨hsp.trans hle, fun hpos => hsp.trans_lt (hlt (fun c hc => hpos c (heq ▸ mem_append_left _ hc))
    (hmerge.first ▸ cons_ne_nil _ _))⟩

theorem addBlock_kept (hcorrect : m.AncestorsCorrect dag) (hst : Kept dag pre st) (hn : dag.length ≤ n)
    {st' : Stores} (hadd : addBlock m n st b = .ok st') : Kept dag (pre ++ [b]) st' ∧ st.Grows st' := by
  obtain ⟨d, hd, rfl⟩ := addBlock_eq hadd
  have hnew := hdag.notMem_pre heq
  have hknows := hst.knows.staged hdag heq
  have hgrows : st.Grows { st.staged b with data := st.data.insert b.hash d } := by
    intro h d' hd'
    have hne : h ≠ b.hash := fun heq => hnew (heq ▸ hst.only h d' hd')
    simpa [hne] using hd'
  have hworkOld : ∀ h ∈ hashes pre,
      Stores.work { st.staged b with data := st.data.insert b.hash d } h = st.work h := by
    intro h hh
    have hne : h ≠ b.hash := fun heq => hnew (heq ▸ hh)
    simp [Stores.work, hne]
  refine ⟨⟨⟨fun c hc => ?_, fun c hc => ?_, fun h hh => ?_⟩, fun h d' hd' => ?_, fun c hc p hp => ?_⟩, hgrows⟩
  · rcases mem_append.mp hc with hc | hc
    · exact hknows.parents c hc
    · simp [Stores.staged, mem_singleton.mp hc]
  · rcases mem_append.mp hc with hc | hc
    · exact hknows.bits c hc
    · simp [Stores.staged, mem_singleton.mp hc]
  · by_cases hhb : h = b.hash
    · exact ⟨d, by simp [hhb]⟩
    obtain ⟨d', hd'⟩ := hst.knows.data h (by simpa [hashes, hhb] using hh)
    exact ⟨d', hgrows h d' hd'⟩
  · by_cases hhb : h = b.hash
    · simp [hashes, hhb]
    have hin := hst.only h d' (by simpa [hhb] using hd')
    rw [hashes] at hin ⊢
    rw [map_append]
    exact mem_append_left _ hin
  rw [hworkOld p (hdag.parent_mem_pre heq hc hp)]
  rcases mem_append.mp hc with hc | hc
  · rw [hworkOld _ (mem_hashes hc)]
    exact hst.work c hc p hp
  obtain rfl := mem_singleton.mp hc
  obtain ⟨sp, -, hwork⟩ := ghostdag_kept hdag heq hcorrect hst.knows hn hd (ne_nil_of_mem hp)
  simpa [Stores.work] using hwork p hp

end

structure Added (dag pre : List Block) (st : Stores) : Prop extends Kept dag pre st where
  mergeData : ∀ b ∈ pre, b.parents ≠ [] → ∃ d sp, st.data.lookup b.hash = some d ∧ MergeData dag st b d sp
  genesisData : ∀ b ∈ pre, b.parents = [] → st.data.lookup b.hash = some ⟨0, 0, none, [], [], ∅⟩

theorem addBlock_added (hdag : IsDAG m dag) (hcorrect : m.AncestorsCorrect dag)
    (heq : dag = pre ++ b :: post) (hn : dag.length ≤ n) (hst : Added dag pre st)
    (hadd : addBlock m n st b = .ok st') : Added dag (pre ++ [b]) st' ∧ st.Grows st' := by
  obtain ⟨hkept, hgrows⟩ := addBlock_kept hdag heq hcorrect hst.toKept hn hadd
  obtain ⟨d, hd, rfl⟩ := addBlock_eq hadd
  have hknown : ∀ c ∈ pre ++ [b], ∀ x p, p ∈ c.parents → Ancestor dag x p →
      ∃ d, st.data.lookup x = some d := fun c hc x p hp hxp =>
    hst.knows.data x (hdag.ancestor_mem_pre heq hxp (hdag.parent_mem_pre heq hc hp))
  refine ⟨⟨hkept, fun c hc hne => ?_, fun c hc hnil => ?_⟩, hgrows⟩
  · rcases mem_append.mp hc with hmem | hmem
    · obtain ⟨d', sp, hd', hmerge⟩ := hst.mergeData c hmem hne
      exact ⟨d', sp, hgrows _ _ hd', hmerge.mono hgrows (hknown c hc)⟩
    obtain rfl := mem_singleton.mp hmem
    obtain ⟨sp, hmerge, -⟩ := ghostdag_kept hdag heq hcorrect hst.knows hn hd hne
    exact ⟨d, sp, by simp, hmerge.mono hgrows (hknown c hc)⟩
  rcases mem_append.mp hc with hmem | hmem
  · exact hgrows _ _ (hst.genesisData c hmem hnil)
  obtain rfl := mem_singleton.mp hmem
  have hparents : lookupOrFail (st.staged c).parents c.hash = .ok [] :=
    lookupOrFail_eq (by simp [Stores.staged, hnil])
  unfold ghostdag at hd
  simp only [hparents, findSelectedParent, ok_bind, pure, Except.pure, Except.ok.injEq] at hd
  simp [← hd]

theorem addBlocks_induct {P : List Block → Stores → Prop}
    (hstep : ∀ pre b post st st', dag = pre ++ b :: post → P pre st → addBlock m n st b = .ok st' →
      P (pre ++ [b]) st') (heq : dag = pre ++ post) (hst : P pre st)
    (hadd : addBlocks m n post st = .ok st') : P dag st' := by
  induction post generalizing pre st with
  | nil =>
    obtain rfl : st = st' := by simpa [addBlocks, pure, Except.pure] using hadd
    rw [append_nil] at heq
    exact heq ▸ hst
  | cons b post ih =>
    unfold addBlocks at hadd
    cases hb : addBlock m n st b with
    | error e => simp [hb] at hadd
    | ok st₁ =>
      simp only [hb, ok_bind] at hadd
      exact ih (by simpa using heq) (hstep pre b post st st₁ heq hst hb) hadd

theorem added_empty : Added dag [] Stores.empty :=
  ⟨⟨⟨by simp, by simp, by simp [hashes]⟩, by simp [Stores.empty], by simp⟩, by simp, by simp⟩

theorem dag_added (hdag : IsDAG m dag) (hcorrect : m.AncestorsCorrect dag) (hn : dag.length ≤ n)
    (hadd : addBlocks m n dag Stores.empty = .ok st) : Added dag dag st :=
  addBlocks_induct (fun _ _ _ _ _ heq hst hb => (addBlock_added hdag hcorrect heq hn hst hb).1)
    (nil_append dag).symm added_empty hadd

end Kaspad.Ghostdag
