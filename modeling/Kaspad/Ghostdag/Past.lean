import Kaspad.Ghostdag.KCluster

/-! # The past of a block

The merge sets along a selected chain partition the past: a block is in the past of `b` exactly when
`b` merges it or it is in the past of the selected parent of `b`, and not both. `GetSortedMergeSet` of
`domain/consensus/processes/ghostdagmanager/mergeset.go` lists a merge set so that no block comes
before one of its ancestors.
-/

namespace Kaspad.Ghostdag
open Lib Lib.Dag List

/-! ## The stores after a whole DAG

The invariant of the k-clusters together with the merge sets, for every block of a DAG that was added
block by block.
-/

section
variable {m : Manager} {dag pre post : List Block} {st : Stores} {b : Block} {n : ℕ}

/-- The stores after the blocks `pre` of the DAG, with the merge data of each. -/
structure Recorded (m : Manager) (dag pre : List Block) (st : Stores) : Prop
    extends Processed m dag pre st where
  mergeData : ∀ b ∈ pre, b.parents ≠ [] → ∃ d sp, st.data.lookup b.hash = some d ∧ MergeData dag st b d sp
  genesisData : ∀ b ∈ pre, b.parents = [] → st.data.lookup b.hash = some ⟨0, 0, none, [], [], ∅⟩

theorem dag_recorded (hdag : IsDAG m dag) (hcorrect : m.AncestorsCorrect dag) (hk : m.k < 255) (hn : dag.length ≤ n) :
    ∃ st, addBlocks m n dag Stores.empty = .ok st ∧ Recorded m dag dag st := by
  obtain ⟨st, hadd, hst⟩ := dag_processed hdag hcorrect hk hn
  have hadded := dag_added hdag hcorrect hn hadd
  exact ⟨st, hadd, hst, hadded.mergeData, hadded.genesisData⟩

/-! ## Blue scores -/

theorem Recorded.blueScore_eq (hdag : IsDAG m dag) (hst : Recorded m dag dag st)
    (hlen : dag.length < 2 ^ 64) {h : DomainHash} {ds : List BlockGHOSTDAGData}
    (hchain : Chain m dag st h ds) (hnodup : (chainBlues ds).Nodup) (hh : h ∈ hashes dag)
    {d : BlockGHOSTDAGData} (hd : st.data.lookup h = some d) : d.blueScore = (chainBlues ds).length := by
  induction hchain generalizing d with
  | genesis =>
    obtain ⟨bits, rest, heq, -⟩ := hdag.genesis
    have hgenesis := hst.genesisData ⟨m.genesisHash, [], bits⟩ (by simp [heq]) rfl
    cases hd.symm.trans hgenesis
    rfl
  | @cons h sp d' ds hd' hgenesis hparent hedge hbelow _ ih =>
    obtain rfl := Option.some.inj (hd.symm.trans hd')
    obtain ⟨b, hb, rfl⟩ := mem_map.mp hh
    have hne : b.parents ≠ [] := fun hnil => hgenesis ((hdag.hash_eq_genesis_iff hb).mpr hnil)
    obtain ⟨d', sp', hd', hmerge⟩ := hst.mergeData b hb hne
    cases hd.symm.trans hd'
    cases hparent.symm.trans hmerge.selectedParent
    obtain ⟨dsp, hdsp, hscore⟩ := hmerge.blueScore
    have hsp := ih (nodup_append.mp hnodup).2.1 (hdag.parent_mem hedge) hdsp
    have hbound : (chainBlues (d :: ds)).length ≤ dag.length := by
      have hsub := (subperm_of_subset hnodup fun x hx =>
        hdag.ancestor_mem (hbelow x hx).1 hh).length_le
      simpa [hashes] using hsub
    have hcount : (chainBlues (d :: ds)).length = dsp.blueScore + d.mergeSetBlues.length := by
      rw [hsp]
      simp [chainBlues, Nat.add_comm]
    rw [hscore, hcount, Nat.mod_eq_of_lt (by omega)]

end

theorem recorded_of_checkDAG {m : Manager} {dag : List Block} (hcheck : checkDAG m dag = true) (hk : m.k < 255)
    {n : ℕ} (hn : dag.length ≤ n) :
    Recorded m dag dag ((addBlocks m n dag Stores.empty).toOption.getD Stores.empty) := by
  obtain ⟨hdag, hcorrect⟩ := isDAG_of_checkDAG hcheck
  obtain ⟨st, hadd, hst⟩ := dag_recorded hdag hcorrect hk hn
  rw [hadd]
  exact hst

def diamondStores : Stores := (addBlocks diamondManager 4 diamond Stores.empty).toOption.getD Stores.empty

theorem diamond_recorded : Recorded diamondManager diamond diamond diamondStores :=
  recorded_of_checkDAG diamond_checkDAG (by decide) (by decide)

/-- The checks of the parents are in `IsDAG`; `checkProofOfWork` refuses a target that is not positive or above
`powMax`. -/
structure Validated (m : Manager) (powMax : ℕ) (dag : List Block) : Prop extends IsDAG m dag where
  powMax_lt : powMax < 2 ^ 256 - 1
  positive : ∀ b ∈ dag, 0 < Difficulty.compactToBig b.bits
  bounded : ∀ b ∈ dag, Difficulty.compactToBig b.bits ≤ powMax

theorem Validated.positiveWork {m : Manager} {powMax : ℕ} {dag : List Block} (h : Validated m powMax dag) :
    PositiveWork dag := by
  intro b hb
  have hpositive := h.positive b hb
  have hbounded := h.bounded b hb
  have hlt := h.powMax_lt
  unfold Difficulty.calcWork
  rw [if_neg (by omega)]
  exact Nat.div_pos (by omega) (Nat.succ_pos _)

/-! ## Partition of the past -/

/-- The strict past: a block is not in its own. -/
def InPast (dag : List Block) (x b : DomainHash) : Prop := Ancestor dag x b ∧ x ≠ b

def mergeSet (d : BlockGHOSTDAGData) : List DomainHash := d.mergeSetBlues ++ d.mergeSetReds

section
variable {m : Manager} {dag : List Block} {st : Stores} {b : Block} {d : BlockGHOSTDAGData} {sp x y z : DomainHash}

theorem InPast.trans_ancestor (hdag : Topological dag) (h : InPast dag x y) (h' : Ancestor dag y z) :
    InPast dag x z := by
  refine ⟨h.1.trans h', ?_⟩
  rintro rfl
  exact h.2 (hdag.antisymm h.1 h')

theorem Ancestor.trans_inPast (hdag : Topological dag) (h : Ancestor dag x y) (h' : InPast dag y z) :
    InPast dag x z := by
  refine ⟨h.trans h'.1, ?_⟩
  rintro rfl
  exact h'.2 (hdag.antisymm h'.1 h)

variable (h : MergeData dag st b d sp)
include h

theorem MergeData.mergeSet_eq : mergeSet d = sp :: (d.mergeSetBlues.tail ++ d.mergeSetReds) := by
  unfold mergeSet
  rw [h.first, cons_append, tail_cons]

theorem MergeData.not_inPast (hx : x ∈ mergeSet d) : ¬ InPast dag x sp := by
  rw [h.mergeSet_eq] at hx
  rcases mem_cons.mp hx with rfl | hx
  · exact fun hpast => hpast.2 rfl
  · exact fun hpast => ((h.merged x).mp hx).2 hpast.1

theorem MergeData.nodup_mergeSet : (mergeSet d).Nodup := by
  rw [h.mergeSet_eq]
  exact nodup_cons.mpr ⟨fun hsp => ((h.merged sp).mp hsp).2 .refl, h.nodup⟩

omit h

theorem MergeData.inPast_sp (hdag : Topological dag) (hb : b ∈ dag) (h : MergeData dag st b d sp) :
    InPast dag sp b.hash := by
  have hedge : IsParent dag sp b.hash := ⟨b, hb, rfl, h.mem⟩
  refine ⟨.single hedge, fun heq => ?_⟩
  have hlt := hdag.rank_lt _ _ hedge
  rw [heq] at hlt
  exact lt_irrefl _ hlt

theorem MergeData.inPast_iff (hdag : Topological dag) (hb : b ∈ dag) (h : MergeData dag st b d sp) :
    InPast dag x b.hash ↔ x ∈ mergeSet d ∨ InPast dag x sp := by
  rw [h.mergeSet_eq, mem_cons, h.merged]
  constructor
  · rintro ⟨hanc, hne⟩
    obtain ⟨p, hp, hxp⟩ := ((hdag.ancestor_iff hb).mp hanc).resolve_left hne
    by_cases hxsp : Ancestor dag x sp
    · by_cases heq : x = sp
      · exact .inl (.inl heq)
      · exact .inr ⟨hxsp, heq⟩
    refine .inl (.inr ⟨⟨p, hp, ?_, hxp⟩, hxsp⟩)
    rintro rfl
    exact hxsp hxp
  have hsp := h.inPast_sp hdag hb
  rintro ((rfl | ⟨⟨p, hp, -, hxp⟩, -⟩) | hpast)
  · exact hsp
  · have hedge : IsParent dag p b.hash := ⟨b, hb, rfl, hp⟩
    refine Ancestor.trans_inPast hdag hxp ⟨.single hedge, fun heq => ?_⟩
    have hlt := hdag.rank_lt _ _ hedge
    rw [heq] at hlt
    exact lt_irrefl _ hlt
  · exact hpast.trans_ancestor hdag hsp.1

theorem Recorded.mergeData_of (hdag : IsDAG m dag) (hst : Recorded m dag dag st)
    (hd : st.data.lookup x = some d) (hne : x ≠ m.genesisHash) :
    ∃ b ∈ dag, b.hash = x ∧ ∃ sp, MergeData dag st b d sp := by
  obtain ⟨b, hb, rfl⟩ := mem_map.mp (hst.only x d hd)
  have hparents : b.parents ≠ [] := fun hnil => hne ((hdag.hash_eq_genesis_iff hb).mpr hnil)
  obtain ⟨d', sp, hd', hmerge⟩ := hst.mergeData b hb hparents
  cases hd.symm.trans hd'
  exact ⟨b, hb, rfl, sp, hmerge⟩

theorem Recorded.key_lt (hdag : IsDAG m dag) (hst : Recorded m dag dag st) (hpos : PositiveWork dag)
    (h : InPast dag x y) (hy : y ∈ hashes dag) : st.key x < st.key y := by
  have hlt := hst.work_lt hdag (append_nil dag).symm hpos h.1 hy h.2
  exact Prod.Lex.toLex_lt_toLex.mpr (.inl hlt)

theorem MergeData.key_le (hdag : IsDAG m dag) (hst : Recorded m dag dag st) (hpos : PositiveWork dag)
    (hb : b ∈ dag) (h : MergeData dag st b d sp) (hx : x ∈ mergeSet d) : st.key x ≤ st.key sp := by
  rw [h.mergeSet_eq] at hx
  rcases mem_cons.mp hx with rfl | hx
  · exact le_rfl
  obtain ⟨⟨p, hp, -, hxp⟩, -⟩ := (h.merged x).mp hx
  have hpm := hdag.parent_mem ⟨b, hb, rfl, hp⟩
  by_cases heq : x = p
  · exact heq ▸ h.greatest p hp
  · exact (hst.key_lt hdag hpos ⟨hxp, heq⟩ hpm).le.trans (h.greatest p hp)

end

/-- The blue score counts the other blue blocks, and blue work grows along the DAG. -/
theorem blueScore_counts {m : Manager} {dag : List Block} (hdag : IsDAG m dag) (hcorrect : m.AncestorsCorrect dag)
    (hk : m.k < 255) (hlen : dag.length < 2 ^ 64) : ∃ st, addBlocks m dag.length dag Stores.empty = .ok st ∧
      ∀ h ∈ hashes dag, ∃ d, st.data.lookup h = some d ∧ (blueSet st h).encard = d.blueScore + 1 ∧
        (PositiveWork dag → ∀ x, InPast dag x h → st.work x < d.blueWork) := by
  obtain ⟨st, hadd, hst⟩ := dag_recorded hdag hcorrect hk le_rfl
  refine ⟨st, hadd, fun h hh => ?_⟩
  obtain ⟨ds, hchain, hsized⟩ := hst.chain h hh
  obtain ⟨d, hd⟩ := hst.knows.data h hh
  refine ⟨d, hd, ?_, fun hpos x hx => ?_⟩
  · have hnodup := nodup_cons.mpr ⟨fun hx => (hchain.blues_below h hx).2 rfl, hsized.nodup⟩
    rw [hchain.blueSet_eq hst.genesis, ← coe_toFinset, Set.encard_coe_eq_coe_finsetCard,
      toFinset_card_of_nodup hnodup, length_cons, hst.blueScore_eq hdag hlen hchain hsized.nodup hh hd]
    rfl
  · have hlt := hst.work_lt hdag (append_nil dag).symm hpos hx.1 hh hx.2
    rwa [Stores.work, Stores.work, hd] at hlt

theorem blueScore_counts_diamond : ∃ st d, addBlocks diamondManager 4 diamond Stores.empty = .ok st ∧
    st.data.lookup 4 = some d ∧ (blueSet st 4).encard = d.blueScore + 1 ∧
    ∀ x, InPast diamond x 4 → st.work x < d.blueWork := by
  obtain ⟨hdag, hcorrect⟩ := isDAG_of_checkDAG diamond_checkDAG
  obtain ⟨st, hadd, hst⟩ := blueScore_counts hdag hcorrect (by decide) (by decide)
  obtain ⟨d, hd, hcount, hwork⟩ := hst 4 (by decide)
  exact ⟨st, d, hadd, hd, hcount, hwork diamond_work⟩

/-! ## The sorted merge set -/

def mergeSorted (st : Stores) : ℕ → List DomainHash → List DomainHash → Except GhostdagError (List DomainHash)
  | n + 1, currentBlue :: blues, currentRed :: reds => do
    let currentBlueGhostdagData ← st.get (some currentBlue) false
    let currentRedGhostdagData ← st.get (some currentRed) false
    if isLess currentBlue currentBlueGhostdagData currentRed currentRedGhostdagData then
      let rest ← mergeSorted st n blues (currentRed :: reds)
      pure (currentBlue :: rest)
    else
      let rest ← mergeSorted st n (currentBlue :: blues) reds
      pure (currentRed :: rest)
  | _, blues, reds => pure (blues ++ reds)

def getSortedMergeSet (st : Stores) (current : DomainHash) : Except GhostdagError (List DomainHash) := do
  let currentGhostdagData ← st.get (some current) false
  match currentGhostdagData.mergeSetBlues with
  | [] => pure []
  | selectedParent :: blueMergeSet =>
    let redMergeSet := currentGhostdagData.mergeSetReds
    let sorted ← mergeSorted st (blueMergeSet.length + redMergeSet.length) blueMergeSet redMergeSet
    pure (selectedParent :: sorted)

theorem mergeSorted_spec {st : Stores} {n : ℕ} {blues reds : List DomainHash}
    (hdata : ∀ x ∈ blues ++ reds, ∃ d, st.data.lookup x = some d)
    (hblues : blues.Pairwise fun x y => st.key x ≤ st.key y)
    (hreds : reds.Pairwise fun x y => st.key x ≤ st.key y) (hn : blues.length + reds.length ≤ n) :
    ∃ l, mergeSorted st n blues reds = .ok l ∧ l.Perm (blues ++ reds) ∧
      l.Pairwise fun x y => st.key x ≤ st.key y := by
  induction n generalizing blues reds with
  | zero =>
    have hb : blues = [] := eq_nil_of_length_eq_zero (by omega)
    have hr : reds = [] := eq_nil_of_length_eq_zero (by omega)
    subst hb hr
    exact ⟨[], rfl, .refl _, .nil⟩
  | succ n ih =>
    cases blues with
    | nil => exact ⟨reds, rfl, .refl _, hreds⟩
    | cons b blues =>
      cases reds with
      | nil => exact ⟨b :: blues, by simp [mergeSorted, pure, Except.pure], by simp, hblues⟩
      | cons r reds =>
        obtain ⟨db, hdb⟩ := hdata b (by simp)
        obtain ⟨dr, hdr⟩ := hdata r (by simp)
        obtain ⟨hb, hblues'⟩ := pairwise_cons.mp hblues
        obtain ⟨hr, hreds'⟩ := pairwise_cons.mp hreds
        simp only [length_cons] at hn
        unfold mergeSorted
        simp only [get_eq hdb, get_eq hdr, ok_bind]
        by_cases hlt : isLess b db r dr = true
        · obtain ⟨l, hl, hperm, hsorted⟩ := @ih blues (r :: reds)
            (fun x hx => hdata x (mem_cons_of_mem _ hx)) hblues' hreds (by simp; omega)
          have hbr : st.key b ≤ st.key r := by
            rw [key_eq hdb, key_eq hdr]
            exact (isLess_iff.mp hlt).le
          refine ⟨b :: l, by simp [hlt, hl, pure, Except.pure], hperm.cons b,
            pairwise_cons.mpr ⟨fun x hx => ?_, hsorted⟩⟩
          rcases mem_append.mp (hperm.mem_iff.mp hx) with hx | hx
          · exact hb x hx
          rcases mem_cons.mp hx with rfl | hx
          · exact hbr
          · exact hbr.trans (hr x hx)
        obtain ⟨l, hl, hperm, hsorted⟩ := @ih (b :: blues) reds (fun x hx => hdata x (by
            rcases mem_append.mp hx with hx | hx
            · exact mem_append_left _ hx
            · exact mem_append_right _ (mem_cons_of_mem _ hx))) hblues hreds' (by simp; omega)
        have hrb : st.key r ≤ st.key b := by
          rw [key_eq hdb, key_eq hdr]
          exact isLess_eq_false.mp (by simpa using hlt)
        refine ⟨r :: l, by simp [hlt, hl, pure, Except.pure], ?_, pairwise_cons.mpr ⟨fun x hx => ?_, hsorted⟩⟩
        · exact (hperm.cons r).trans perm_middle.symm
        rcases mem_append.mp (hperm.mem_iff.mp hx) with hx | hx
        · rcases mem_cons.mp hx with rfl | hx
          · exact hrb
          · exact hrb.trans (hb x hx)
        · exact hr x hx

section
variable {m : Manager} {dag : List Block} {st : Stores} {b : Block} {d : BlockGHOSTDAGData} {sp : DomainHash}
  (hdag : IsDAG m dag) (hst : Recorded m dag dag st)

include hdag in
theorem MergeData.merged_mem (hb : b ∈ dag) (hmerge : MergeData dag st b d sp) :
    ∀ x ∈ d.mergeSetBlues.tail ++ d.mergeSetReds, x ∈ hashes dag := by
  intro x hx
  obtain ⟨⟨p, hp, -, hxp⟩, -⟩ := (hmerge.merged x).mp hx
  exact hdag.ancestor_mem hxp (hdag.parent_mem ⟨b, hb, rfl, hp⟩)

include hdag in
theorem getSortedMergeSet_eq (hknows : st.Knows dag) (hb : b ∈ dag) (hd : st.data.lookup b.hash = some d)
    (hmerge : MergeData dag st b d sp) :
    ∃ l, getSortedMergeSet st b.hash = .ok (sp :: l) ∧ l.Perm (d.mergeSetBlues.tail ++ d.mergeSetReds) ∧
      l.Pairwise fun x y => st.key x ≤ st.key y := by
  obtain ⟨l, hl, hperm, hsorted⟩ := mergeSorted_spec
    (fun x hx => hknows.data x (hmerge.merged_mem hdag hb x hx)) hmerge.sortedBlues hmerge.sortedReds le_rfl
  refine ⟨l, ?_, hperm, hsorted⟩
  unfold getSortedMergeSet
  simp only [get_eq hd, ok_bind]
  rw [hmerge.first]
  simp only [hl]
  rfl

include hdag hst in
theorem getSortedMergeSet_spec (hpos : PositiveWork dag) (hb : b ∈ dag) (hd : st.data.lookup b.hash = some d)
    (hmerge : MergeData dag st b d sp) :
    ∃ l, getSortedMergeSet st b.hash = .ok l ∧ l.Perm (mergeSet d) ∧ l.Pairwise fun x y => ¬ Ancestor dag y x := by
  obtain ⟨l, hl, hperm, hsorted⟩ := getSortedMergeSet_eq hdag hst.knows hb hd hmerge
  have hnodup := hperm.nodup_iff.mpr hmerge.nodup
  refine ⟨sp :: l, hl, ?_, pairwise_cons.mpr ⟨fun x hx => ?_, ?_⟩⟩
  · rw [hmerge.mergeSet_eq]
    exact hperm.cons sp
  · exact ((hmerge.merged x).mp (hperm.mem_iff.mp hx)).2
  refine (hsorted.and hnodup).imp_of_mem fun {x y} hx _ hxy hanc => ?_
  exact absurd (hst.key_lt hdag hpos ⟨hanc, hxy.2.symm⟩ (hmerge.merged_mem hdag hb x (hperm.mem_iff.mp hx)))
    (not_lt.mpr hxy.1)

end

/-- The merge set without the selected parent is listed once each, by blue work and hash. -/
theorem mergeSet_listed (m : Manager) (dag : List Block) (n : ℕ) (st : Stores) (b : Block)
    (hdag : IsDAG m dag) (hcorrect : m.AncestorsCorrect dag) (hn : dag.length ≤ n)
    (hadd : addBlocks m n dag Stores.empty = .ok st) (hb : b ∈ dag) (hne : b.parents ≠ []) :
    ∃ d sp l, st.data.lookup b.hash = some d ∧ d.selectedParent = some sp ∧
      mergeSetWithoutSelectedParent m n st sp b.parents = .ok l ∧ l.Nodup ∧
      (∀ x, x ∈ l ↔ InPast dag x b.hash ∧ ¬ (InPast dag x sp ∨ x = sp)) ∧
      (l.Pairwise fun x y => st.key x ≤ st.key y) ∧ (PositiveWork dag → l.Pairwise fun x y => ¬ Ancestor dag y x) ∧
      d.mergeSetBlues = sp :: d.mergeSetBlues.tail ∧ l.Perm (d.mergeSetBlues.tail ++ d.mergeSetReds) ∧
      getSortedMergeSet st b.hash = .ok (sp :: l) := by
  have hst := dag_added hdag hcorrect hn hadd
  obtain ⟨d, sp, hd, hmerge⟩ := hst.mergeData b hb hne
  obtain ⟨pre, post, heq⟩ := append_of_mem hb
  have hjoin := hdag.joinable heq
  have hjoin' : Joinable dag dag b.parents :=
    ⟨fun p hp => hashes_append heq (hjoin.mem p hp), hjoin.nodup, hjoin.antichain⟩
  obtain ⟨l, hl, hnodup, hmem, hsorted⟩ := mergeSetWithoutSelectedParent_spec hdag hcorrect
    (append_nil dag).symm hst.knows hjoin' hmerge.mem hn
  obtain ⟨l', hl', hperm, hsorted'⟩ := getSortedMergeSet_eq hdag hst.knows hb hd hmerge
  have hlisted : l.Perm (d.mergeSetBlues.tail ++ d.mergeSetReds) :=
    (perm_ext_iff_of_nodup hnodup hmerge.nodup).mpr fun x => (hmem x).trans (hmerge.merged x).symm
  obtain rfl := (hlisted.trans hperm.symm).eq_of_pairwise
    (fun x y _ _ hxy hyx => congrArg (fun k => (ofLex k).2) (le_antisymm hxy hyx)) hsorted hsorted'
  have hiff : ∀ x, x ∈ l ↔ InPast dag x b.hash ∧ ¬ (InPast dag x sp ∨ x = sp) := by
    intro x
    rw [hmerge.inPast_iff hdag.toTopological hb, hmerge.mergeSet_eq, mem_cons, ← hlisted.mem_iff]
    have hno : x ∈ l → ¬ Ancestor dag x sp := fun hx => ((hmem x).mp hx).2
    constructor
    · intro hx
      refine ⟨.inl (.inr hx), fun h => hno hx ?_⟩
      cases h with
      | inl h => exact h.1
      | inr h => exact h ▸ .refl
    intro ⟨h, hnot⟩
    rcases h with (h | h) | h
    · exact absurd (.inr h) hnot
    · exact h
    · exact absurd (.inl h) hnot
  refine ⟨d, sp, l, hd, hmerge.selectedParent, hl, hnodup, hiff, hsorted, fun hpos => ?_, hmerge.first, hlisted, hl'⟩
  refine (hsorted.and hnodup).imp_of_mem fun {x y} hx _ hxy hanc => ?_
  have hlt := work_lt_of_parents hdag (append_nil dag).symm (fun c hc p hp => (hst.work c hc p hp).2 hpos) hanc
    (hmerge.merged_mem hdag hb x (hlisted.mem_iff.mp hx)) hxy.2.symm
  have hle := Prod.Lex.toLex_le_toLex.mp hxy.1
  omega

theorem mergeSet_listed_diamond :
    ∃ st d sp l, addBlocks diamondManager 4 diamond Stores.empty = .ok st ∧ st.data.lookup 4 = some d ∧
      d.selectedParent = some sp ∧ mergeSetWithoutSelectedParent diamondManager 4 st sp [2, 3] = .ok l ∧
      getSortedMergeSet st 4 = .ok (sp :: l) := by
  obtain ⟨hdag, hcorrect⟩ := isDAG_of_checkDAG diamond_checkDAG
  obtain ⟨st, hadd, -⟩ := dag_recorded (n := 4) hdag hcorrect (by decide) le_rfl
  obtain ⟨d, sp, l, hd, hsp, hl, -, -, -, -, -, -, hsorted⟩ := mergeSet_listed diamondManager diamond 4 st
    ⟨4, [2, 3], 0x1d00ffff⟩ hdag hcorrect le_rfl hadd (by decide) (by decide)
  exact ⟨st, d, sp, l, hadd, hd, hsp, hl, hsorted⟩

end Kaspad.Ghostdag
