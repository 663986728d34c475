import Kaspad.Ghostdag.MergeSet

/-! # Blue candidates

What the walks down the selected chain compute: `blueAnticoneSize` finds the first recorded size, and
`checkBlueCandidate` collects the blues that are not ancestors of the candidate.
-/

namespace Kaspad.Ghostdag
open Lib Lib.Dag List

/-! ## The selected chain -/

def chainBlues (ds : List BlockGHOSTDAGData) : List DomainHash :=
  ds.flatMap BlockGHOSTDAGData.mergeSetBlues

def chainSize (ds : List BlockGHOSTDAGData) (block : DomainHash) : Option ℕ :=
  ds.findSome? fun d => d.bluesAnticoneSizes.lookup block

inductive Chain (m : Manager) (dag : List Block) (st : Stores) :
    DomainHash → List BlockGHOSTDAGData → Prop
  | genesis : Chain m dag st m.genesisHash []
  | cons {h sp : DomainHash} {d : BlockGHOSTDAGData} {ds : List BlockGHOSTDAGData}
      (hd : st.data.lookup h = some d) (hgenesis : h ≠ m.genesisHash)
      (hparent : d.selectedParent = some sp) (hedge : IsParent dag sp h)
      (hbelow : ∀ b ∈ chainBlues (d :: ds), Ancestor dag b h ∧ b ≠ h) (htail : Chain m dag st sp ds) :
      Chain m dag st h (d :: ds)

section
variable {m : Manager} {dag : List Block} {st : Stores} {h sp : DomainHash}
  {d : BlockGHOSTDAGData} {ds : List BlockGHOSTDAGData}

theorem Chain.blues_below (hchain : Chain m dag st h ds) : ∀ b ∈ chainBlues ds, Ancestor dag b h ∧ b ≠ h := by
  cases hchain with
  | genesis => simp [chainBlues]
  | cons _ _ _ _ hbelow _ => exact hbelow

theorem Chain.length_le (hdag : IsDAG m dag) (hchain : Chain m dag st h ds) : ds.length ≤ (hashes dag).idxOf h := by
  induction hchain with
  | genesis => exact Nat.zero_le _
  | cons _ _ _ hedge _ _ ih =>
    have hlt := hdag.rank_lt _ _ hedge
    rw [length_cons]
    omega

theorem Chain.mono (hchain : Chain m dag st h ds) {st' : Stores}
    (hst : ∀ h d, st.data.lookup h = some d → st'.data.lookup h = some d) : Chain m dag st' h ds := by
  induction hchain with
  | genesis => exact .genesis
  | cons hd hgenesis hparent hedge hbelow _ ih =>
    exact .cons (hst _ _ hd) hgenesis hparent hedge hbelow ih

theorem blueAnticoneSizeLoop_eq (hdag : IsDAG m dag) (hchain : Chain m dag st sp ds)
    (hd : d.selectedParent = some sp) {n : ℕ} (hn : ds.length < n) (block : DomainHash) :
    blueAnticoneSizeLoop m st block n false d = match chainSize (d :: ds) block with
      | some size => .ok size
      | none => .error (.notInBlueSet block) := by
  obtain ⟨n, rfl⟩ : ∃ n', n = n' + 1 := ⟨n - 1, by omega⟩
  induction hchain generalizing d n with
  | genesis =>
    unfold blueAnticoneSizeLoop chainSize
    rw [List.findSome?_cons]
    cases d.bluesAnticoneSizes.lookup block with
    | some size => rfl
    | none => simp [hd]; rfl
  | @cons h sp' d' ds' hd' hgenesis hparent hedge _ htail ih =>
    unfold blueAnticoneSizeLoop chainSize
    rw [List.findSome?_cons]
    cases d.bluesAnticoneSizes.lookup block with
    | some size => rfl
    | none =>
      have hvirtual : sp' ≠ virtualGenesisBlockHash := by
        rintro rfl
        exact hdag.notVirtual (hdag.parent_mem hedge)
      obtain ⟨n, rfl⟩ : ∃ n', n = n' + 1 := ⟨n - 1, by simp at hn; omega⟩
      simp only [hd, Option.some.injEq, hgenesis, if_false, get_eq hd', ok_bind, hparent, hvirtual]
      exact ih hparent n (by simpa using hn)

end

structure Collected (m : Manager) (size : DomainHash → ℕ) (found : List DomainHash)
    (sizes : CandidateSizes) : Prop where
  lookup : ∀ b, sizes.1.lookup b = if b ∈ found then some (size b) else none
  count : sizes.2 = found.length
  le : found.length ≤ m.k
  lt : ∀ b ∈ found, size b < m.k

variable {m : Manager} {dag : List Block} {st : Stores} {rounds : ℕ} {size : DomainHash → ℕ}
  {c : DomainHash} {newData : BlockGHOSTDAGData} {sizes : CandidateSizes}

theorem checkBlues_spec (hk : m.k < 255) {blocks : List DomainHash}
    (hsize : ∀ b ∈ blocks, blueAnticoneSize m rounds st b newData = .ok (size b) ∧ size b ≤ m.k)
    {found : List DomainHash} (hfound : Collected m size found sizes) :
    (∃ sizes', checkBlues m rounds st newData c blocks sizes = .ok (.red, sizes')) ∨
      ∃ sizes', checkBlues m rounds st newData c blocks sizes = .ok (.undecided, sizes') ∧
        Collected m size (found ++ blocks.filter fun b => !m.isAncestorOf b c) sizes' := by
  induction blocks generalizing found sizes with
  | nil => exact .inr ⟨sizes, rfl, by simpa using hfound⟩
  | cons b blocks ih =>
    obtain ⟨anticoneSizes, count⟩ := sizes
    have hrest := fun b' hb' => hsize b' (mem_cons_of_mem b hb')
    unfold checkBlues
    by_cases hanc : m.isAncestorOf b c
    · simpa [hanc] using ih hrest hfound
    obtain ⟨hb, hle⟩ := hsize b (by simp)
    have hcount : toKType (count + 1) = found.length + 1 := by
      have hle := hfound.le
      have heq := hfound.count
      unfold toKType
      omega
    simp only [hanc, Bool.false_eq_true, if_false, hb, ok_bind, hcount]
    split_ifs with hmany hfull hover
    · exact .inl ⟨_, rfl⟩
    · exact .inl ⟨_, rfl⟩
    · omega
    have hnext : Collected m size (found ++ [b]) (anticoneSizes.insert b (size b), found.length + 1) := by
      refine ⟨fun b' => ?_, by simp, by simp; omega, fun b' hb' => ?_⟩
      · have hlookup := hfound.lookup b'
        by_cases heq : b' = b
        · simp [heq]
        · simpa [heq] using hlookup
      rcases mem_append.mp hb' with hb' | hb'
      · exact hfound.lt b' hb'
      rw [mem_singleton.mp hb']
      omega
    simpa [hanc] using ih hrest hnext

theorem checkBlueCandidateLoop_spec (hdag : IsDAG m dag) (hcorrect : m.AncestorsCorrect dag)
    (hk : m.k < 255) (hc : c ∈ hashes dag) {h : DomainHash} {ds : List BlockGHOSTDAGData}
    (hh : h ∈ hashes dag) (hchain : Chain m dag st h ds) (hgenesis : ∃ d, st.data.lookup m.genesisHash = some d)
    (hsize : ∀ b ∈ chainBlues ds, blueAnticoneSize m rounds st b newData = .ok (size b) ∧ size b ≤ m.k)
    {found : List DomainHash} (hfound : Collected m size found sizes) {n : ℕ} (hn : ds.length < n) :
    ∃ d, st.data.lookup h = some d ∧ (checkBlueCandidateLoop m rounds st newData c n (some h) d sizes = .ok none ∨
        ∃ sizes', checkBlueCandidateLoop m rounds st newData c n (some h) d sizes = .ok (some sizes') ∧
          Collected m size (found ++ (chainBlues ds).filter fun b => !m.isAncestorOf b c) sizes') := by
  obtain ⟨n, rfl⟩ : ∃ n', n = n' + 1 := ⟨n - 1, by omega⟩
  induction hchain generalizing n found sizes with
  | genesis =>
    obtain ⟨d, hd⟩ := hgenesis
    refine ⟨d, hd, .inr ⟨sizes, ?_, by simpa [chainBlues] using hfound⟩⟩
    have hanc := (hcorrect _ hh c hc).mpr (hdag.genesis_ancestor hc)
    simp [checkBlueCandidateLoop, checkBlueCandidateWithChainBlock, hanc, pure, Except.pure]
  | @cons h sp d ds hd _ hparent hedge hbelow htail ih =>
    refine ⟨d, hd, ?_⟩
    unfold checkBlueCandidateLoop checkBlueCandidateWithChainBlock
    by_cases hanc : m.isAncestorOf h c
    · right
      have hnone : (chainBlues (d :: ds)).filter (fun b => !m.isAncestorOf b c) = [] := by
        refine filter_eq_nil_iff.mpr fun b hb => ?_
        have hbh := (hbelow b hb).1
        have hbc := (hcorrect b (hdag.ancestor_mem hbh hh) c hc).mpr (hbh.trans ((hcorrect h hh c hc).mp hanc))
        simp [hbc]
      rw [hnone, append_nil]
      exact ⟨sizes, by simp [hanc, pure, Except.pure], hfound⟩
    have hblues : chainBlues (d :: ds) = d.mergeSetBlues ++ chainBlues ds := rfl
    rw [hblues] at hsize ⊢
    rcases checkBlues_spec (c := c) hk (fun b hb => hsize b (mem_append_left _ hb)) hfound with
      ⟨sizes', hcheck⟩ | ⟨sizes', hcheck, hfound'⟩
    · left
      simp [hanc, hcheck, pure, Except.pure]
    obtain ⟨n, rfl⟩ : ∃ n', n = n' + 1 := ⟨n - 1, by simp at hn; omega⟩
    obtain ⟨dsp, hdsp, hloop⟩ := ih (hdag.parent_mem hedge)
      (fun b hb => hsize b (mem_append_right _ hb)) hfound' n (by simpa using hn)
    rw [filter_append, ← append_assoc]
    simpa [hanc, hcheck, hparent, get_eq hdsp] using hloop

end Kaspad.Ghostdag
