import Kaspad.Ghostdag.Candidate
import Kaspad.Ghostdag.MergeData

/-! # The blue set is a k-cluster

The sizes recorded along the selected chain bound the blue anticones, and are exact when the work of
every block is positive: then blue work grows along edges, and a merge set is colored ancestors
first.
-/

namespace Kaspad.Ghostdag
open Lib Lib.Dag List GoMap

/-! ## Sizes -/

/-- The recorded sizes are at most `k` and bound the blue anticones; if `exact` holds, they are their
sizes. -/
structure Sized (m : Manager) (exact : Prop) (ds : List BlockGHOSTDAGData) : Prop where
  nodup : (chainBlues ds).Nodup
  known : ∀ b s, chainSize ds b = some s → b ∈ chainBlues ds
  size : ∀ b ∈ chainBlues ds, ∃ s, chainSize ds b = some s ∧ s ≤ m.k ∧
    anticoneCount m.isAncestorOf (chainBlues ds) b ≤ s ∧
    (exact → s = anticoneCount m.isAncestorOf (chainBlues ds) b)

def withBlue (d : BlockGHOSTDAGData) (c : DomainHash) (sizes : CandidateSizes) : BlockGHOSTDAGData :=
  { d with
    mergeSetBlues := d.mergeSetBlues ++ [c]
    bluesAnticoneSizes := raiseSizes sizes.1 (d.bluesAnticoneSizes.insert c sizes.2) }

section
variable {m : Manager} {exact : Prop} {d : BlockGHOSTDAGData} {ds : List BlockGHOSTDAGData}
  {c : DomainHash} {sizes : CandidateSizes}

theorem chainBlues_withBlue : (chainBlues (withBlue d c sizes :: ds)).Perm (chainBlues (d :: ds) ++ [c]) := by
  have hperm : ([c] ++ chainBlues ds).Perm (chainBlues ds ++ [c]) := perm_append_comm
  simpa [chainBlues, withBlue] using hperm.append_left d.mergeSetBlues

theorem chainSize_withBlue {size : DomainHash → ℕ} {found : List DomainHash} (hk : m.k < 255)
    (hfound : Collected m size found sizes) (b : DomainHash) :
    chainSize (withBlue d c sizes :: ds) b = if b ∈ found then some (size b + 1)
      else if b = c then some found.length else chainSize (d :: ds) b := by
  have hlookup : (withBlue d c sizes).bluesAnticoneSizes.lookup b = if b ∈ found then
      some (size b + 1) else if b = c then some found.length else d.bluesAnticoneSizes.lookup b := by
    simp only [withBlue, raiseSizes, lookup_addMapped, hfound.lookup, lookup_set, hfound.count]
    by_cases hb : b ∈ found
    · have hlt := hfound.lt b hb
      simp only [hb, if_true, Option.map_some, Option.some_or, toKType]
      rw [Nat.mod_eq_of_lt (by omega)]
    · simp [hb]
  unfold chainSize
  rw [List.findSome?_cons, List.findSome?_cons, hlookup]
  by_cases hb : b ∈ found
  · simp [hb]
  by_cases hc : b = c
  · subst hc
    simp [hb]
  · simp [hb, hc]

theorem Sized.withBlue (hk : m.k < 255) (hsized : Sized m exact (d :: ds))
    (hnew : c ∉ chainBlues (d :: ds)) {size : DomainHash → ℕ}
    (hsize : ∀ b ∈ chainBlues (d :: ds), chainSize (d :: ds) b = some (size b))
    (hfound : Collected m size ((chainBlues (d :: ds)).filter fun b => !m.isAncestorOf b c) sizes)
    (hself : m.isAncestorOf c c = true) (habove : exact → ∀ b ∈ chainBlues (d :: ds), m.isAncestorOf c b = false) :
    Sized m exact (Ghostdag.withBlue d c sizes :: ds) := by
  have hperm : (chainBlues (Ghostdag.withBlue d c sizes :: ds)).Perm (chainBlues (d :: ds) ++ [c]) :=
    chainBlues_withBlue
  have hsize' : ∀ b, chainSize (Ghostdag.withBlue d c sizes :: ds) b = _ := chainSize_withBlue hk hfound
  have hcount : ∀ b, anticoneCount m.isAncestorOf (chainBlues (Ghostdag.withBlue d c sizes :: ds)) b =
      anticoneCount m.isAncestorOf (chainBlues (d :: ds)) b +
        if !m.isAncestorOf c b && !m.isAncestorOf b c then 1 else 0 := fun b =>
    (anticoneCount_perm hperm b).trans (anticoneCount_snoc b c)
  refine ⟨?_, ?_, ?_⟩
  · rw [hperm.nodup_iff]
    simpa using hsized.nodup.concat hnew
  · intro b s hs
    rw [hperm.mem_iff, mem_append]
    rw [hsize'] at hs
    split_ifs at hs with hb hc
    · exact .inl (mem_filter.mp hb).1
    · exact .inr (by simp [hc])
    · exact .inl (hsized.known b s hs)
  intro b hb
  rw [hperm.mem_iff, mem_append, mem_singleton] at hb
  rw [hsize', hcount]
  rcases hb with hb | rfl
  · obtain ⟨s, hs, hle, hge, hexact⟩ := hsized.size b hb
    have hsb : size b = s := Option.some.inj ((hsize b hb).symm.trans hs)
    have hbc : b ≠ c := by rintro rfl; exact hnew hb
    by_cases hbelow : m.isAncestorOf b c
    · refine ⟨s, by simp [hbelow, hbc, hs], hle, by simpa [hbelow] using hge, ?_⟩
      simpa [hbelow] using hexact
    have hmem : b ∈ (chainBlues (d :: ds)).filter fun b => !m.isAncestorOf b c :=
      mem_filter.mpr ⟨hb, by simp [hbelow]⟩
    have hlt := hfound.lt b hmem
    refine ⟨size b + 1, by rw [if_pos hmem], hlt, ?_, fun he => ?_⟩
    · split_ifs <;> omega
    have hcb := habove he b hb
    simp only [hcb, hbelow, Bool.not_false, Bool.and_self, if_true]
    rw [hsb, hexact he]
  · have hnot : b ∉ (chainBlues (d :: ds)).filter fun x => !m.isAncestorOf x b :=
      fun h => hnew (mem_filter.mp h).1
    refine ⟨_, by rw [if_neg hnot, if_pos rfl], hfound.le, ?_, fun he => ?_⟩
    · simpa [hself] using anticoneCount_le_filter b
    · simpa [hself] using (anticoneCount_eq_filter (habove he)).symm

end

/-! ## Coloring a merge set -/

structure Colored (m : Manager) (dag : List Block) (exact : Prop) (sp : DomainHash)
    (blockParents : List DomainHash) (ds : List BlockGHOSTDAGData) (d : BlockGHOSTDAGData) : Prop where
  selectedParent : d.selectedParent = some sp
  sized : Sized m exact (d :: ds)
  merged : ∀ b ∈ d.mergeSetBlues, b = sp ∨ Merged dag sp blockParents b
  first : sp ∈ d.mergeSetBlues

section
variable {m : Manager} {dag : List Block} (hdag : IsDAG m dag) (hcorrect : m.AncestorsCorrect dag)
  (hk : m.k < 255) {exact : Prop} {st : Stores} {sp : DomainHash} {blockParents : List DomainHash}
  {ds : List BlockGHOSTDAGData} (hchain : Chain m dag st sp ds) (hsp : sp ∈ hashes dag)
  (hgenesis : ∃ d, st.data.lookup m.genesisHash = some d) {n : ℕ} (hn : ds.length + 1 < n)

include hdag hcorrect hk hchain hsp hgenesis hn

variable {d : BlockGHOSTDAGData}

theorem checkBlueCandidate_spec (hcolored : Colored m dag exact sp blockParents ds d)
    {c : DomainHash} (hc : c ∈ hashes dag) (hmerged : Merged dag sp blockParents c) (hnew : c ∉ chainBlues (d :: ds))
    (habove : exact → ∀ b ∈ chainBlues (d :: ds), m.isAncestorOf c b = false) :
    checkBlueCandidate m n st d c = .ok none ∨ ∃ sizes, checkBlueCandidate m n st d c = .ok (some sizes) ∧
        Colored m dag exact sp blockParents ds (withBlue d c sizes) := by
  unfold checkBlueCandidate
  split_ifs with hfull
  · exact .inl rfl
  obtain ⟨size, hsize⟩ : ∃ size : DomainHash → ℕ, ∀ b ∈ chainBlues (d :: ds),
      chainSize (d :: ds) b = some (size b) ∧ size b ≤ m.k := by
    refine ⟨fun b => (chainSize (d :: ds) b).getD 0, fun b hb => ?_⟩
    obtain ⟨s, hs, hle, -⟩ := hcolored.sized.size b hb
    simp [hs, hle]
  have hwalk : ∀ b ∈ chainBlues (d :: ds), blueAnticoneSize m n st b d = .ok (size b) ∧ size b ≤ m.k := by
    intro b hb
    unfold blueAnticoneSize
    rw [blueAnticoneSizeLoop_eq hdag hchain hcolored.selectedParent (by omega), (hsize b hb).1]
    exact ⟨rfl, (hsize b hb).2⟩
  have hblues : chainBlues (d :: ds) = d.mergeSetBlues ++ chainBlues ds := rfl
  have hempty : Collected m size [] (∅, 0) := ⟨by simp, rfl, Nat.zero_le _, by simp⟩
  obtain ⟨n', rfl⟩ : ∃ n', n = n' + 1 := ⟨n - 1, by omega⟩
  have hblue : ∀ sizes, Collected m size ((chainBlues (d :: ds)).filter fun b => !m.isAncestorOf b c) sizes →
      Colored m dag exact sp blockParents ds (withBlue d c sizes) := by
    intro sizes hfound
    refine ⟨hcolored.selectedParent, hcolored.sized.withBlue hk hnew (fun b hb => (hsize b hb).1) hfound
      ((hcorrect c hc c hc).mpr .refl) habove, fun b hb => ?_, mem_append_left _ hcolored.first⟩
    rcases mem_append.mp hb with hb | hb
    · exact hcolored.merged b hb
    rw [mem_singleton.mp hb]
    exact .inr hmerged
  unfold checkBlueCandidateLoop checkBlueCandidateWithChainBlock
  rcases checkBlues_spec (c := c) hk (fun b hb => hwalk b (mem_append_left _ hb)) hempty with
    ⟨sizes, hcheck⟩ | ⟨sizes, hcheck, hfound⟩
  · left
    simp [hcheck, pure, Except.pure]
  obtain ⟨dsp, hdsp, hloop⟩ := checkBlueCandidateLoop_spec hdag hcorrect hk hc hsp hchain hgenesis
    (fun b hb => hwalk b (hblues ▸ mem_append_right _ hb)) hfound (n := n') (by omega)
  simp only [Option.any_none, Bool.false_eq_true, if_false, hcheck, ok_bind,
    hcolored.selectedParent, get_eq hdsp]
  refine hloop.imp id fun ⟨sizes', hloop, hfound'⟩ => ⟨sizes', hloop, hblue sizes' ?_⟩
  rwa [hblues, filter_append]

/-- The invariant of the loop is `Colored`. -/
theorem colorMergeSet_spec {candidates : List DomainHash} (hnodup : candidates.Nodup)
    (hcandidates : ∀ c ∈ candidates, c ∈ hashes dag ∧ Merged dag sp blockParents c)
    (hsorted : exact → candidates.Pairwise fun a b => ¬ Ancestor dag b a)
    (hcolored : Colored m dag exact sp blockParents ds d) (hnew : ∀ c ∈ candidates, c ∉ chainBlues (d :: ds))
    (hblues : ∀ b ∈ chainBlues (d :: ds), b ∈ hashes dag)
    (habove : exact → ∀ c ∈ candidates, ∀ b ∈ chainBlues (d :: ds), ¬ Ancestor dag c b) :
    ∃ d', colorMergeSet m n st candidates d = .ok d' ∧ Colored m dag exact sp blockParents ds d' := by
  induction candidates generalizing d with
  | nil => exact ⟨d, rfl, hcolored⟩
  | cons c candidates ih =>
    obtain ⟨hc, hmerged⟩ := hcandidates c (by simp)
    have hcb : exact → ∀ b ∈ chainBlues (d :: ds), m.isAncestorOf c b = false := by
      intro he b hb
      have hnot := habove he c (by simp) b hb
      rwa [← hcorrect c hc b (hblues b hb), Bool.not_eq_true] at hnot
    have hrest := fun c' hc' => hcandidates c' (mem_cons_of_mem c hc')
    unfold colorMergeSet
    rcases checkBlueCandidate_spec hdag hcorrect hk hchain hsp hgenesis hn hcolored hc hmerged
      (hnew c (by simp)) hcb with hcheck | ⟨sizes, hcheck, hcolored'⟩
    · simp only [hcheck, ok_bind]
      exact ih (nodup_cons.mp hnodup).2 hrest (fun he => (pairwise_cons.mp (hsorted he)).2)
        ⟨hcolored.selectedParent, ⟨hcolored.sized.nodup, hcolored.sized.known, hcolored.sized.size⟩,
          hcolored.merged, hcolored.first⟩
        (fun c' hc' => hnew c' (by simp [hc'])) hblues fun he c' hc' => habove he c' (by simp [hc'])
    simp only [hcheck, ok_bind]
    have hmem : ∀ b, b ∈ chainBlues (withBlue d c sizes :: ds) ↔ b ∈ chainBlues (d :: ds) ∨ b = c := by
      intro b
      rw [chainBlues_withBlue.mem_iff, mem_append, mem_singleton]
    refine ih (nodup_cons.mp hnodup).2 hrest (fun he => (pairwise_cons.mp (hsorted he)).2)
      hcolored' (fun c' hc' h => ?_) (fun b hb => ?_) fun he c' hc' b hb => ?_
    · rcases (hmem c').mp h with h | rfl
      · exact hnew c' (by simp [hc']) h
      · exact (nodup_cons.mp hnodup).1 hc'
    · rcases (hmem b).mp hb with hb | rfl
      · exact hblues b hb
      · exact hc
    rcases (hmem b).mp hb with hb | rfl
    · exact habove he c' (by simp [hc']) b hb
    · exact (pairwise_cons.mp (hsorted he)).1 c' hc'

end

/-! ## Processing a block -/

structure Processed (m : Manager) (dag pre : List Block) (st : Stores) : Prop where
  knows : st.Knows pre
  only : ∀ h d, st.data.lookup h = some d → h ∈ hashes pre
  chain : ∀ h ∈ hashes pre, ∃ ds, Chain m dag st h ds ∧ Sized m (PositiveWork dag) ds
  work : ∀ b ∈ pre, ∀ p ∈ b.parents, st.work p ≤ st.work b.hash ∧ (PositiveWork dag → st.work p < st.work b.hash)
  genesis : ∀ d, st.data.lookup m.genesisHash = some d → d.selectedParent = none ∧ d.mergeSetBlues = []

section
variable {m : Manager} {dag pre post : List Block} {st : Stores} (hdag : IsDAG m dag)
include hdag in
theorem Processed.work_lt (heq : dag = pre ++ post) (hst : Processed m dag pre st)
    (hpos : PositiveWork dag) {a b : DomainHash} (h : Ancestor dag a b) (hb : b ∈ hashes pre)
    (hne : a ≠ b) : st.work a < st.work b :=
  work_lt_of_parents hdag heq (fun b hb p hp => (hst.work b hb p hp).2 hpos) h hb hne

variable (hcorrect : m.AncestorsCorrect dag)
include hcorrect in
theorem colored_start (hdag : IsDAG m dag) {exact : Prop} {sp : DomainHash} (hsp : sp ∈ hashes dag)
    {ds : List BlockGHOSTDAGData} (hchain : Chain m dag st sp ds) (hsized : Sized m exact ds)
    (blockParents : List DomainHash) :
    Colored m dag exact sp blockParents ds ⟨0, 0, some sp, [sp], [], (∅ : GoMap DomainHash ℕ).insert sp 0⟩ := by
  have hle : ∀ b ∈ chainBlues ds, m.isAncestorOf b sp = true := fun b hb =>
    (hcorrect b (hdag.ancestor_mem (hchain.blues_below b hb).1 hsp) sp hsp).mpr (hchain.blues_below b hb).1
  have hself := (hcorrect sp hsp sp hsp).mpr .refl
  have hsize : ∀ b, chainSize (⟨0, 0, some sp, [sp], [], (∅ : GoMap DomainHash ℕ).insert sp 0⟩ :: ds) b =
      if b = sp then some 0 else chainSize ds b := by
    intro b
    unfold chainSize
    rw [List.findSome?_cons, lookup_set]
    by_cases hb : b = sp <;> simp [hb]
  refine ⟨rfl, ⟨?_, fun b s hs => ?_, fun b hb => ?_⟩, fun b hb => .inl (by simpa using hb), by simp⟩
  · exact nodup_cons.mpr ⟨fun h => (hchain.blues_below sp h).2 rfl, hsized.nodup⟩
  · rw [hsize] at hs
    split_ifs at hs with hb
    · exact mem_cons.mpr (.inl hb)
    · exact mem_cons_of_mem _ (hsized.known b s hs)
  change ∃ s, _ ∧ s ≤ m.k ∧ anticoneCount m.isAncestorOf ([sp] ++ chainBlues ds) b ≤ s ∧
    (exact → s = anticoneCount m.isAncestorOf ([sp] ++ chainBlues ds) b)
  rw [hsize]
  rcases mem_cons.mp hb with rfl | hb
  · rw [if_pos rfl, anticoneCount_filter_of_below (by simpa using hself), anticoneCount_eq_zero hle]
    exact ⟨0, rfl, Nat.zero_le _, le_rfl, fun _ => rfl⟩
  have hne := (hchain.blues_below b hb).2
  have hcount : anticoneCount m.isAncestorOf ([sp] ++ chainBlues ds) b =
      anticoneCount m.isAncestorOf (chainBlues ds) b := by
    simp [anticoneCount, hle b hb]
  rw [if_neg hne, hcount]
  exact hsized.size b hb

variable {b : Block} {n : ℕ} (hk : m.k < 255)
include hdag hcorrect hk

/-- The data of the new block extends the chain of its selected parent. -/
theorem ghostdag_joins (heq : dag = pre ++ post) (hst : Processed m dag pre st)
    (hn : dag.length ≤ n) (hpreLen : pre.length < n) (hjoin : Joinable dag pre b.parents)
    (hparents : st.parents.lookup b.hash = some b.parents) (hne : b.parents ≠ []) :
    ∃ d sp ds, ghostdag m n st b.hash = .ok d ∧ d.selectedParent = some sp ∧ sp ∈ b.parents ∧
      Chain m dag st sp ds ∧ Sized m (PositiveWork dag) (d :: ds) ∧
      ∀ x ∈ chainBlues (d :: ds), ∃ p ∈ b.parents, Ancestor dag x p := by
  have hpre := hjoin.mem
  have hpast : ∀ x p, p ∈ b.parents → Ancestor dag x p → x ∈ hashes pre := fun x p hp hxp =>
    hdag.ancestor_mem_pre heq hxp (hpre p hp)
  obtain ⟨first, others, hfirst⟩ := exists_cons_of_ne_nil hne
  -- The selected parent.
  have hdata : ∀ h ∈ first :: others, ∃ d, st.data.lookup h = some d := fun h hh =>
    hst.knows.data h (hpre h (hfirst ▸ hh))
  obtain ⟨sp, hsp, hfind, -⟩ :=
    findSelectedParent_some hdata (hfirst ▸ hjoin.nodup)
  rw [← hfirst] at hsp
  have hspdag := hashes_append heq (hpre sp hsp)
  obtain ⟨ds, hchain, hsized⟩ := hst.chain sp (hpre sp hsp)
  -- The merge set.
  obtain ⟨candidates, hmerge, hnodup, hmem, hsorted⟩ :=
    mergeSetWithoutSelectedParent_spec hdag hcorrect heq hst.knows hjoin hsp hn
  have hbelow := forall_mem_cons.mpr ⟨.refl, fun x hx => (hchain.blues_below x hx).1⟩
  have hcandidates : ∀ c ∈ candidates, c ∈ hashes pre := by
    intro c hc
    obtain ⟨⟨p, hp, -, hcp⟩, -⟩ := (hmem c).mp hc
    exact hpast c p hp hcp
  have htopological : PositiveWork dag → candidates.Pairwise fun a b => ¬ Ancestor dag b a := by
    intro hpos
    refine (hsorted.and hnodup).imp_of_mem fun {x y} hx hy hxy h => ?_
    have hlt := hst.work_lt hdag heq hpos h (hcandidates x hx) hxy.2.symm
    have hle := (Prod.Lex.toLex_le_toLex.mp hxy.1)
    omega
  have hrounds : ds.length + 1 < n := by
    have hlen := hchain.length_le hdag
    have hidx : (hashes dag).idxOf sp < pre.length := by
      have hsplit : hashes dag = hashes pre ++ hashes post := by
        rw [heq]
        exact map_append
      rw [hsplit, idxOf_append_of_mem (hpre sp hsp)]
      simpa [hashes] using idxOf_lt_length_of_mem (hpre sp hsp)
    omega
  obtain ⟨bits, rest, hgenesis, -⟩ := hdag.genesis
  have hgenesisData := hst.knows.data _ (hdag.ancestor_mem_pre heq (hdag.genesis_ancestor hspdag) (hpre sp hsp))
  obtain ⟨d, hcolor, hcolored⟩ := colorMergeSet_spec hdag hcorrect hk hchain hspdag hgenesisData hrounds
    hnodup (fun c hc => ⟨hashes_append heq (hcandidates c hc), (hmem c).mp hc⟩)
    htopological (colored_start hcorrect hdag hspdag hchain hsized b.parents)
    (fun c hc h => ((hmem c).mp hc).2 (hbelow c h))
    (fun x hx => hdag.ancestor_mem (hbelow x hx) hspdag)
    (fun _ c hc x hx h => ((hmem c).mp hc).2 (h.trans (hbelow x hx)))
  have hblues : ∀ x ∈ d.mergeSetBlues, ∃ p ∈ b.parents, Ancestor dag x p := by
    intro x hx
    rcases hcolored.merged x hx with rfl | ⟨⟨p, hp, -, hxp⟩, -⟩
    · exact ⟨x, hsp, .refl⟩
    · exact ⟨p, hp, hxp⟩
  obtain ⟨dsp, hdsp⟩ := hst.knows.data sp (hpre sp hsp)
  have hvirtual : virtualGenesisBlockHash ∉ hashes pre := fun h => hdag.notVirtual (hashes_append heq h)
  obtain ⟨w, hw, -, -⟩ := addWork_spec hst.knows hvirtual (fun x hx => by
    obtain ⟨p, hp, hxp⟩ := hblues x hx
    exact hpast x p hp hxp) dsp.blueWork
  refine ⟨{ d with blueScore := (dsp.blueScore + d.mergeSetBlues.length) % 2 ^ 64, blueWork := w },
    sp, ds, ?_, hcolored.selectedParent, hsp, hchain,
    ⟨hcolored.sized.nodup, hcolored.sized.known, hcolored.sized.size⟩, fun x hx => ?_⟩
  · unfold ghostdag
    simp only [lookupOrFail_eq hparents, bind, Except.bind, hfirst, findSelectedParent, hfind]
    rw [← hfirst]
    simp only [hmerge, hcolor, get_eq hdsp, hw, pure, Except.pure]
  · rcases mem_append.mp (show x ∈ d.mergeSetBlues ++ chainBlues ds from hx) with hx | hx
    · exact hblues x hx
    · exact ⟨sp, hsp, (hchain.blues_below x hx).1⟩

theorem ghostdag_spec (heq : dag = pre ++ b :: post) (hst : Processed m dag pre st)
    (hn : dag.length ≤ n) (hparents : st.parents.lookup b.hash = some b.parents) (hne : b.parents ≠ []) :
    ∃ d sp ds, ghostdag m n st b.hash = .ok d ∧ d.selectedParent = some sp ∧ sp ∈ b.parents ∧
      Chain m dag st sp ds ∧ Sized m (PositiveWork dag) (d :: ds) ∧
      ∀ x ∈ chainBlues (d :: ds), Ancestor dag x b.hash ∧ x ≠ b.hash := by
  have hb : b ∈ dag := by simp [heq]
  have hlen : pre.length < n := by
    have hlen := congrArg List.length heq
    simp only [length_append, length_cons] at hlen
    omega
  obtain ⟨d, sp, ds, hd, hsp, hmem, hchain, hsized, hblues⟩ := ghostdag_joins hdag hcorrect hk heq hst
    hn hlen (hdag.joinable heq) hparents hne
  refine ⟨d, sp, ds, hd, hsp, hmem, hchain, hsized, fun x hx => ?_⟩
  obtain ⟨p, hp, hxp⟩ := hblues x hx
  have hx := hdag.ancestor_mem_pre heq hxp (hdag.earlier pre b post heq p hp)
  exact ⟨hxp.tail ⟨b, hb, rfl, hp⟩, fun h => hdag.notMem_pre heq (h ▸ hx)⟩

/-- The step of `addBlocks`. -/
theorem addBlock_spec (heq : dag = pre ++ b :: post) (hst : Processed m dag pre st) (hn : dag.length ≤ n) :
    ∃ st', addBlock m n st b = .ok st' ∧ Processed m dag (pre ++ [b]) st' := by
  have hb : b ∈ dag := by simp [heq]
  have hprocessed : Processed m dag pre (st.staged b) := by
    refine ⟨hst.knows.staged hdag heq, hst.only, fun h hh => ?_, hst.work, hst.genesis⟩
    obtain ⟨ds, hchain, hsized⟩ := hst.chain h hh
    exact ⟨ds, hchain.mono fun _ _ h => h, hsized⟩
  have hparents : (st.staged b).parents.lookup b.hash = some b.parents := by simp [Stores.staged]
  suffices hdata : ∃ d, ghostdag m n (st.staged b) b.hash = .ok d ∧
      (∃ ds, Chain m dag { st.staged b with data := st.data.insert b.hash d } b.hash ds ∧
        Sized m (PositiveWork dag) ds) ∧
      (b.hash = m.genesisHash → d.selectedParent = none ∧ d.mergeSetBlues = []) by
    obtain ⟨d, hd, hchain, hempty⟩ := hdata
    have hadd : addBlock m n st b = .ok { st.staged b with data := st.data.insert b.hash d } := by
      unfold addBlock
      rw [← Stores.staged]
      simp only [hd, ok_bind]
      rfl
    obtain ⟨hkept, hgrows⟩ := addBlock_kept hdag heq hcorrect ⟨hst.knows, hst.only, hst.work⟩ hn hadd
    refine ⟨_, hadd, hkept.knows, hkept.only, fun h hh => ?_, hkept.work, fun d' hd' => ?_⟩
    · by_cases hhb : h = b.hash
      · rw [hhb]
        exact hchain
      obtain ⟨ds, hchain', hsized⟩ := hst.chain h (by simpa [hashes, hhb] using hh)
      exact ⟨ds, hchain'.mono hgrows, hsized⟩
    · by_cases hgenesis : b.hash = m.genesisHash
      · obtain rfl : d = d' := by simpa [hgenesis] using hd'
        exact hempty hgenesis
      · exact hst.genesis d' (by simpa [Ne.symm hgenesis] using hd')
  by_cases hnil : b.parents = []
  · have hgenesis := (hdag.hash_eq_genesis_iff hb).mpr hnil
    refine ⟨⟨0, 0, none, [], [], ∅⟩, ?_, ⟨[], ?_, ?_⟩, fun _ => ⟨rfl, rfl⟩⟩
    · unfold ghostdag
      simp only [lookupOrFail_eq hparents, hnil, findSelectedParent, ok_bind]
      rfl
    · rw [hgenesis]
      exact .genesis
    · exact ⟨by simp [chainBlues], by simp [chainSize], by simp [chainBlues]⟩
  · obtain ⟨d, sp, ds, hd, hselected, hsp, hchain, hsized, hbelow⟩ :=
      ghostdag_spec hdag hcorrect hk heq hprocessed hn hparents hnil
    have hgenesis : b.hash ≠ m.genesisHash := fun h => hnil ((hdag.hash_eq_genesis_iff hb).mp h)
    refine ⟨d, hd, ⟨d :: ds, ?_, hsized⟩, fun h => absurd h hgenesis⟩
    refine .cons (by simp) hgenesis hselected ⟨b, hb, rfl, hsp⟩ hbelow (hchain.mono fun h d' hd' => ?_)
    have hne : h ≠ b.hash := fun heq' => hdag.notMem_pre heq (heq' ▸ hst.only h d' hd')
    simpa [hne, Stores.staged] using hd'

theorem dag_processed (hn : dag.length ≤ n) :
    ∃ st, addBlocks m n dag Stores.empty = .ok st ∧ Processed m dag dag st := by
  suffices h : ∀ post pre st, dag = pre ++ post → Processed m dag pre st →
      ∃ st', addBlocks m n post st = .ok st' ∧ Processed m dag dag st' by
    exact h dag [] Stores.empty rfl ⟨⟨by simp, by simp, by simp [hashes]⟩, by simp [Stores.empty],
      by simp [hashes], by simp, by simp [Stores.empty]⟩
  intro post
  induction post with
  | nil =>
    intro pre st heq hst
    rw [append_nil] at heq
    exact ⟨st, rfl, heq ▸ hst⟩
  | cons b post ih =>
    intro pre st heq hst
    obtain ⟨st₁, hadd, hst₁⟩ := addBlock_spec hdag hcorrect hk heq hst hn
    obtain ⟨st', hrest, hst'⟩ := ih (pre ++ [b]) st₁ (by simpa using heq) hst₁
    refine ⟨st', ?_, hst'⟩
    unfold addBlocks
    simp only [hadd, ok_bind, hrest]

end

/-! ## The blue set -/

def IsSelectedParent (st : Stores) (sp h : DomainHash) : Prop :=
  ∃ d, st.data.lookup h = some d ∧ d.selectedParent = some sp

def blueSet (st : Stores) (h : DomainHash) : Set DomainHash :=
  {b | b = h ∨ ∃ c d, Relation.ReflTransGen (IsSelectedParent st) c h ∧ st.data.lookup c = some d ∧
    b ∈ d.mergeSetBlues}

section
variable {m : Manager} {dag : List Block} {st : Stores} {h : DomainHash} {ds : List BlockGHOSTDAGData}

theorem Chain.blueSet_eq (hchain : Chain m dag st h ds)
    (hgenesis : ∀ d, st.data.lookup m.genesisHash = some d → d.selectedParent = none ∧ d.mergeSetBlues = []) :
    blueSet st h = {b | b ∈ h :: chainBlues ds} := by
  ext b
  have hiff : (∃ c d, Relation.ReflTransGen (IsSelectedParent st) c h ∧ st.data.lookup c = some d ∧
      b ∈ d.mergeSetBlues) ↔ b ∈ chainBlues ds := by
    induction hchain with
    | genesis =>
      simp only [chainBlues, flatMap_nil, not_mem_nil, iff_false]
      rintro ⟨c, d, hc, hd, hb⟩
      obtain rfl | ⟨sp, -, d', hd', hsp⟩ := Relation.ReflTransGen.cases_tail hc
      · simp [(hgenesis d hd).2] at hb
      · simp [(hgenesis d' hd').1] at hsp
    | @cons h sp d ds hd _ hparent _ _ _ ih =>
      have hcons : b ∈ chainBlues (d :: ds) ↔ b ∈ d.mergeSetBlues ∨ b ∈ chainBlues ds := by
        simp [chainBlues]
      rw [hcons, ← ih]
      constructor
      · rintro ⟨c, d', hc, hd', hb⟩
        obtain rfl | ⟨sp', hc', d'', hd'', hsp'⟩ := Relation.ReflTransGen.cases_tail hc
        · rw [hd] at hd'
          exact .inl (Option.some.inj hd' ▸ hb)
        rw [hd] at hd''
        obtain rfl := Option.some.inj hd''
        obtain rfl : sp = sp' := Option.some.inj (hparent.symm.trans hsp')
        exact .inr ⟨c, d', hc', hd', hb⟩
      · rintro (hb | ⟨c, d', hc, hd', hb⟩)
        · exact ⟨h, d, .refl, hd, hb⟩
        · exact ⟨c, d', hc.tail ⟨d, hd, hparent⟩, hd', hb⟩
  exact (or_congr_right hiff).trans mem_cons.symm

theorem Chain.encard_blueSet_anticone (hdag : IsDAG m dag) (hcorrect : m.AncestorsCorrect dag)
    (hh : h ∈ hashes dag) (hchain : Chain m dag st h ds) (hnodup : (chainBlues ds).Nodup)
    (hgenesis : ∀ d, st.data.lookup m.genesisHash = some d → d.selectedParent = none ∧ d.mergeSetBlues = [])
    {b : DomainHash} (hb : b ∈ h :: chainBlues ds) : (blueSet st h ∩ anticone (Ancestor dag) b).encard =
      anticoneCount m.isAncestorOf (chainBlues ds) b := by
  have hmem : ∀ x ∈ h :: chainBlues ds, x ∈ hashes dag ∧ Ancestor dag x h := forall_mem_cons.mpr ⟨⟨hh, .refl⟩,
    fun x hx => ⟨hdag.ancestor_mem (hchain.blues_below x hx).1 hh, (hchain.blues_below x hx).1⟩⟩
  have hcount : anticoneCount m.isAncestorOf ([h] ++ chainBlues ds) b =
      anticoneCount m.isAncestorOf (chainBlues ds) b := by
    have hbh := (hcorrect b (hmem b hb).1 h hh).mpr (hmem b hb).2
    simp [anticoneCount, hbh]
  rw [hchain.blueSet_eq hgenesis, ← hcount]
  refine encard_anticone (nodup_cons.mpr ⟨fun hx => (hchain.blues_below h hx).2 rfl, hnodup⟩) ?_
  exact fun a ha => ⟨hcorrect a (hmem a ha).1 b (hmem b hb).1, hcorrect b (hmem b hb).1 a (hmem a ha).1⟩

/-- Every blue set is a k-cluster; with positive work the recorded sizes are exact. -/
theorem blueSet_isKCluster (hdag : IsDAG m dag) (hcorrect : m.AncestorsCorrect dag) (hk : m.k < 255)
    {n : ℕ} (hn : dag.length ≤ n) : ∃ st, addBlocks m n dag Stores.empty = .ok st ∧ ∀ h ∈ hashes dag, ∃ data,
      st.data.lookup h = some data ∧ ∀ b ∈ blueSet st h, (blueSet st h ∩ anticone (Ancestor dag) b).encard ≤ m.k ∧
        (b ≠ h → ∃ size : ℕ, blueAnticoneSize m n st b data = .ok size ∧ size ≤ m.k ∧
          (blueSet st h ∩ anticone (Ancestor dag) b).encard ≤ size ∧
          (PositiveWork dag → (blueSet st h ∩ anticone (Ancestor dag) b).encard = size)) := by
  obtain ⟨st, hadd, hst⟩ := dag_processed hdag hcorrect hk hn
  refine ⟨st, hadd, fun h hh => ?_⟩
  obtain ⟨ds, hchain, hsized⟩ := hst.chain h hh
  obtain ⟨data, hdata⟩ := hst.knows.data h hh
  refine ⟨data, hdata, fun b hb => ?_⟩
  rw [hchain.blueSet_eq hst.genesis] at hb
  rw [hchain.encard_blueSet_anticone hdag hcorrect hh hsized.nodup hst.genesis hb]
  by_cases hbh : b = h
  · subst hbh
    have hzero : anticoneCount m.isAncestorOf (chainBlues ds) b = 0 :=
      anticoneCount_eq_zero fun x hx => (hcorrect x (hdag.ancestor_mem (hchain.blues_below x hx).1 hh)
        b hh).mpr (hchain.blues_below x hx).1
    rw [hzero]
    exact ⟨by simp, fun h => absurd rfl h⟩
  have hblue : b ∈ chainBlues ds := (mem_cons.mp hb).resolve_left hbh
  obtain ⟨s, hs, hle, hge, hexact⟩ := hsized.size b hblue
  refine ⟨by exact_mod_cast hge.trans hle, fun _ => ⟨s, ?_, hle, by exact_mod_cast hge, fun hpos => by
    rw [hexact hpos]⟩⟩
  have hlen := hchain.length_le hdag
  have hidx := idxOf_lt_length_of_mem hh
  have hsame : (hashes dag).length = dag.length := length_map _
  cases hchain with
  | genesis => exact absurd hblue (by simp [chainBlues])
  | @cons _ sp d ds hd _ hparent _ _ htail =>
    cases hdata.symm.trans hd
    unfold blueAnticoneSize
    rw [length_cons] at hlen
    rw [blueAnticoneSizeLoop_eq hdag htail hparent (by omega), hs]

end

/-! ## Two small DAGs -/

def ancestorIn (dag : List Block) : ℕ → DomainHash → DomainHash → Bool
  | 0, _, _ => false
  | n + 1, a, b => decide (a = b) ||
    dag.any fun blk => decide (blk.hash = b) && blk.parents.any (ancestorIn dag n a)

def checkDAG (m : Manager) (dag : List Block) : Bool :=
  decide (hashes dag).Nodup && decide (virtualGenesisBlockHash ∉ hashes dag) &&
  decide (dag.head?.map Block.hash = some m.genesisHash) &&
  (List.range dag.length).all (fun i => ((dag[i]?.map Block.parents).getD []).all
    fun p => decide (p ∈ hashes (dag.take i))) &&
  dag.tail.all (fun b => decide (b.parents ≠ [])) &&
  dag.all fun b => decide b.parents.Nodup &&
    b.parents.all (fun p => b.parents.all fun q => decide (p = q) || !m.isAncestorOf p q) &&
    (hashes dag).all fun a =>
      m.isAncestorOf a b.hash == (decide (a = b.hash) || b.parents.any (m.isAncestorOf a))

theorem isDAG_of_checkDAG {m : Manager} {dag : List Block} (h : checkDAG m dag = true) :
    IsDAG m dag ∧ m.AncestorsCorrect dag := by
  simp only [checkDAG, Bool.and_eq_true, all_eq_true, decide_eq_true_iff, mem_range,
    Bool.or_eq_true, Bool.not_eq_true', beq_iff_eq] at h
  obtain ⟨⟨⟨⟨⟨hnodup, hvirtual⟩, hhead⟩, hearlier⟩, htail⟩, hblocks⟩ := h
  have htop : Topological dag := by
    refine ⟨hnodup, fun pre b post heq p hp => ?_⟩
    have hpre := hearlier pre.length (by simp [heq]) p (by simpa [heq] using hp)
    simpa [heq] using hpre
  have hcorrect : m.AncestorsCorrect dag := fun a ha b hb =>
    htop.ancestor_of_recursion (fun b hb a ha => (hblocks b hb).2 a ha) ha hb
  refine ⟨⟨htop, ?_, fun b hb => (hblocks b hb).1.1, fun b hb p hp q hq hne h => ?_, hvirtual⟩, hcorrect⟩
  · cases dag with
    | nil => simp at hhead
    | cons b rest =>
      obtain ⟨hash, parents, bits⟩ := b
      obtain rfl : hash = m.genesisHash := by simpa using hhead
      have hparents : parents = [] := by
        have hpre := hearlier 0 (by simp)
        simpa [hashes, eq_nil_iff_forall_not_mem] using hpre
      exact ⟨bits, rest, by rw [hparents], htail⟩
  · have hfalse := ((hblocks b hb).1.2 p hp q hq).resolve_left hne
    have hmem : ∀ x ∈ b.parents, x ∈ hashes dag := fun x hx => htop.parent_mem ⟨b, hb, rfl, hx⟩
    rw [← hcorrect p (hmem p hp) q (hmem q hq), hfalse] at h
    cases h

def diamond : List Block :=
  [⟨1, [], 0x1d00ffff⟩, ⟨2, [1], 0x1d00ffff⟩, ⟨3, [1], 0x1d00ffff⟩, ⟨4, [2, 3], 0x1d00ffff⟩]

def diamondManager : Manager := ⟨2, 1, ancestorIn diamond 4⟩

theorem diamond_checkDAG : checkDAG diamondManager diamond = true := by decide +kernel

theorem blueSet_isKCluster_diamond :
    ∃ st, addBlocks diamondManager 4 diamond Stores.empty = .ok st ∧ ∀ h ∈ hashes diamond, ∃ data,
      st.data.lookup h = some data ∧ ∀ b ∈ blueSet st h, (blueSet st h ∩ anticone (Ancestor diamond) b).encard ≤ 2 ∧
        (b ≠ h → ∃ size : ℕ, blueAnticoneSize diamondManager 4 st b data = .ok size ∧ size ≤ 2 ∧
          (blueSet st h ∩ anticone (Ancestor diamond) b).encard ≤ size ∧
          (PositiveWork diamond → (blueSet st h ∩ anticone (Ancestor diamond) b).encard = size)) :=
  blueSet_isKCluster (isDAG_of_checkDAG diamond_checkDAG).1 (isDAG_of_checkDAG diamond_checkDAG).2 (by decide) le_rfl

theorem diamond_work : PositiveWork diamond := by
  unfold PositiveWork
  decide +kernel

def workless : List Block := [⟨1, [], 0⟩, ⟨30, [1], 0⟩, ⟨20, [30], 0⟩, ⟨40, [1], 0⟩, ⟨50, [40, 20], 0⟩]

def worklessManager : Manager := ⟨2, 1, ancestorIn workless 5⟩

def sizeAfter (m : Manager) (dag : List Block) (block context : DomainHash) : Except GhostdagError ℕ := do
  let st ← addBlocks m dag.length dag Stores.empty
  let data ← st.get (some context) false
  blueAnticoneSize m dag.length st block data

/-- Without work the recorded size of 30 counts its descendant 20. -/
theorem blueAnticoneSize_not_exact : IsDAG worklessManager workless ∧ worklessManager.AncestorsCorrect workless ∧
      sizeAfter worklessManager workless 30 50 = .ok 2 ∧
      {b | b ∈ hashes workless} ∩ anticone (Ancestor workless) 30 = {40} ∧
      sizeAfter worklessManager workless 50 50 = .error (.notInBlueSet 50) := by
  have hcheck : checkDAG worklessManager workless = true := by decide +kernel
  obtain ⟨hdag, hcorrect⟩ := isDAG_of_checkDAG hcheck
  refine ⟨hdag, hcorrect, by decide +kernel, ?_, by decide +kernel⟩
  have h30 : 30 ∈ hashes workless := by decide
  ext x
  constructor
  · rintro ⟨hx, hbelow, habove⟩
    rw [← hcorrect x hx 30 h30] at hbelow
    rw [← hcorrect 30 h30 x hx] at habove
    revert hbelow habove
    have hall : ∀ x ∈ hashes workless, ¬ worklessManager.isAncestorOf x 30 = true →
      ¬ worklessManager.isAncestorOf 30 x = true → x = 40 := by decide +kernel
    exact hall x hx
  rintro rfl
  have h40 : 40 ∈ hashes workless := by decide
  refine ⟨h40, ?_, ?_⟩
  · rw [← hcorrect 40 h40 30 h30]
    decide +kernel
  rw [← hcorrect 30 h30 40 h40]
  decide +kernel

end Kaspad.Ghostdag
