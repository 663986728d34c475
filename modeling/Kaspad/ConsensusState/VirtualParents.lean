import Kaspad.ConsensusState.UTXOValid
import Kaspad.ConsensusState.VirtualSelectedParent

/-! # The parents of the virtual block

The running merge set size is the number of blocks that the virtual block merges, since the search of
`mergeSetIncrease` visits the blocks below a candidate that are not below the parents so far.
-/

namespace Kaspad.ConsensusState
open Lib Ghostdag Traversal List

/-! ## The order of the candidates -/

section
variable {st : Stores} {l : List DomainHash} {heap : BlockHeap}

theorem popCandidates_spec (h : CandidateHeap st l heap) (n : ℕ) : ∃ rest, (popCandidates n heap ++ rest).Perm l := by
  induction n generalizing l heap with
  | zero => exact ⟨l, .refl _⟩
  | succ n ih =>
    unfold popCandidates
    by_cases hl : l = []
    · subst hl
      rw [BinaryHeap.pop_eq_none (by simpa using h.perm.length_eq)]
      exact ⟨[], .refl _⟩
    obtain ⟨p, heap', l', hpop, hperm, h', -⟩ := h.pop hl
    obtain ⟨rest, hrest⟩ := ih h'
    rw [hpop]
    exact ⟨rest, (hrest.cons p.hash).trans hperm.symm⟩

theorem popCandidates_length (n : ℕ) (heap : BlockHeap) : (popCandidates n heap).length ≤ n := by
  induction n generalizing heap with
  | zero => exact le_rfl
  | succ n ih =>
    unfold popCandidates
    split
    · exact Nat.zero_le _
    · simpa using ih _

theorem swapCandidates_perm (n i last : ℕ) (candidates : Array DomainHash) :
    (swapCandidates n i last candidates).toList.Perm candidates.toList := by
  induction n generalizing i last candidates with
  | zero => exact .refl _
  | succ n ih => exact (ih _ _ _).trans (BinaryHeap.perm_swap candidates i last)

theorem prioritizeCandidates_perm (m : VirtualManager) (candidates : List DomainHash) :
    (prioritizeCandidates m candidates).Perm candidates := by
  unfold prioritizeCandidates
  split_ifs
  · exact swapCandidates_perm _ _ _ _
  · exact .refl _

end

/-! ## The merge set -/

def Below (dag : List Block) (parents : List DomainHash) (x : DomainHash) : Prop :=
  ∃ p ∈ parents, Ancestor dag x p

theorem unvisited_spec (visited parents : List DomainHash) :
    (unvisited visited parents).Nodup ∧ ∀ x, x ∈ unvisited visited parents ↔ x ∈ parents ∧ x ∉ visited := by
  induction parents generalizing visited with
  | nil => exact ⟨nodup_nil, by simp [unvisited]⟩
  | cons p parents ih =>
    unfold unvisited
    split_ifs with hp
    · obtain ⟨hnodup, hmem⟩ := ih visited
      refine ⟨hnodup, fun x => ?_⟩
      rw [hmem, mem_cons]
      refine ⟨fun hx => ⟨.inr hx.1, hx.2⟩, fun hx => ⟨hx.1.resolve_left ?_, hx.2⟩⟩
      rintro rfl
      exact hx.2 hp
    obtain ⟨hnodup, hmem⟩ := ih (p :: visited)
    refine ⟨nodup_cons.mpr ⟨fun hin => ((hmem p).mp hin).2 (by simp), hnodup⟩, fun x => ?_⟩
    rw [mem_cons, mem_cons, hmem]
    by_cases hxp : x = p
    · simp [hxp, hp]
    · simp [hxp]

section
variable {m : VirtualManager} {s : State} {powMax : ℕ} {dag : List Block} (hs : DagState m powMax dag s)
  {parents : List DomainHash} {candidate : DomainHash}

/-- The blocks of `done` have left the queue; `counted` are the candidate and those that are not below the parents.
-/
structure Increase (dag : List Block) (parents : List DomainHash) (candidate : DomainHash)
    (done queue counted : List DomainHash) : Prop where
  nodup : (done ++ queue).Nodup
  past : ∀ x ∈ done ++ queue, InPast dag x candidate
  start : ∀ p, IsParent dag p candidate → p ∈ done ++ queue
  closed : ∀ x ∈ done, ¬ Below dag parents x → ∀ p, IsParent dag p x → p ∈ done ++ queue
  counted_nodup : counted.Nodup
  counted_iff : ∀ x, x ∈ counted ↔ x = candidate ∨ x ∈ done ∧ ¬ Below dag parents x

variable {done : List DomainHash}

theorem Increase.complete {counted : List DomainHash} (h : Increase dag parents candidate done [] counted)
    (hcandidate : ¬ Below dag parents candidate) (x : DomainHash) :
    x ∈ counted ↔ Ancestor dag x candidate ∧ ¬ Below dag parents x := by
  rw [h.counted_iff]
  constructor
  · rintro (rfl | ⟨hx, hnot⟩)
    · exact ⟨.refl, hcandidate⟩
    · exact ⟨(h.past x (by simp [hx])).1, hnot⟩
  rintro ⟨hanc, hnot⟩
  -- Up the path from `x`: no block on it is below the parents.
  have hpath : x = candidate ∨ x ∈ done := by
    induction hanc using Relation.ReflTransGen.head_induction_on with
    | refl => exact .inl rfl
    | @head x y hedge _ ih =>
      have hy : ¬ Below dag parents y := fun ⟨p, hp, hyp⟩ => hnot ⟨p, hp, .head hedge hyp⟩
      rcases ih hy with rfl | hyd
      · exact .inr (by simpa using h.start x hedge)
      · exact .inr (by simpa using h.closed y hyd hy x hedge)
  exact hpath.imp id fun hx => ⟨hx, hnot⟩

section
variable {queue counted : List DomainHash} {current : DomainHash}
  (h : Increase dag parents candidate done (current :: queue) counted)
include h

/-- A block below the parents leaves the queue. -/
theorem Increase.skip (hskip : Below dag parents current) :
    Increase dag parents candidate (current :: done) queue counted := by
  have hmove : ∀ x, x ∈ done ++ current :: queue ↔ x ∈ (current :: done) ++ queue := fun x => perm_middle.mem_iff
  refine ⟨perm_middle.nodup_iff.mp h.nodup, fun x hx => h.past x ((hmove x).mpr hx),
    fun p hp => (hmove p).mp (h.start p hp), fun x hx hnot p hp => (hmove p).mp ?_, h.counted_nodup, fun x => ?_⟩
  · rcases mem_cons.mp hx with rfl | hx
    · exact absurd hskip hnot
    · exact h.closed x hx hnot p hp
  rw [h.counted_iff, mem_cons]
  refine or_congr_right (and_congr_left fun hnot => ⟨.inr, fun hx => hx.resolve_left ?_⟩)
  rintro rfl
  exact hnot hskip

/-- Another block is counted, and its parents that are new join the queue. -/
theorem Increase.count (hnot : ¬ Below dag parents current) {new : List DomainHash} (hnew : new.Nodup)
    (hfresh : ∀ x ∈ new, x ∉ done ++ current :: queue) (hpast : ∀ x ∈ new, InPast dag x candidate)
    (hparent : ∀ p, IsParent dag p current → p ∈ done ++ current :: queue ∨ p ∈ new) :
    Increase dag parents candidate (current :: done) (queue ++ new) (current :: counted) := by
  have hall : ∀ x, x ∈ (current :: done) ++ (queue ++ new) ↔ x ∈ done ++ current :: queue ∨ x ∈ new := by
    intro x
    simp only [mem_append, mem_cons]
    tauto
  have hcurrent : current ∉ counted := by
    intro hin
    rcases (h.counted_iff current).mp hin with heq | ⟨hd, -⟩
    · exact (h.past current (by simp)).2 heq
    · exact (nodup_append.mp h.nodup).2.2 current hd current (by simp) rfl
  refine ⟨?_, fun x hx => ((hall x).mp hx).elim (h.past x) (hpast x), fun p hp => (hall p).mpr (.inl (h.start p hp)),
    fun x hx hbelow p hp => (hall p).mpr ?_, nodup_cons.mpr ⟨hcurrent, h.counted_nodup⟩, fun x => ?_⟩
  · rw [← append_assoc]
    refine nodup_append.mpr ⟨perm_middle.nodup_iff.mp h.nodup, hnew, ?_⟩
    rintro x hx y hy rfl
    exact hfresh x hy (perm_middle.mem_iff.mpr hx)
  · rcases mem_cons.mp hx with rfl | hx
    · exact hparent p hp
    · exact .inl (h.closed x hx hbelow p hp)
  · rw [mem_cons, h.counted_iff, mem_cons]
    by_cases hxc : x = current
    · simp [hxc, hnot]
    · simp [hxc]

end

include hs

variable {x : DomainHash} {rounds : ℕ} {others : List DomainHash}

theorem DagState.any_isAncestorOf (hx : x ∈ hashes dag) (hparents : ∀ p ∈ parents, p ∈ hashes dag) :
    (parents.any fun parent => m.isAncestorOf x parent) = true ↔ Below dag parents x := by
  rw [any_eq_true]
  exact exists_congr fun p => and_congr_right fun hp => hs.ancestors x hx p (hparents p hp)

theorem mergeSetIncreaseLoop_spec (hparents : ∀ p ∈ parents, p ∈ hashes dag)
    (hmem : candidate ∈ hashes dag) (hcandidate : ¬ Below dag parents candidate) {size n : ℕ}
    {queue counted visited : List DomainHash} (h : Increase dag parents candidate done queue counted)
    (hvisited : ∀ x, x ∈ visited ↔ x ∈ done ++ queue)
    (hlimit : size + counted.length ≤ m.mergeSetSizeLimit) (hn : dag.length < n + done.length) :
    (∃ all : List DomainHash, mergeSetIncreaseLoop m s parents size n visited queue counted.length =
        .ok (.canBeParent all.length) ∧ all.Nodup ∧
        (∀ x, x ∈ all ↔ Ancestor dag x candidate ∧ ¬ Below dag parents x) ∧ size + all.length ≤ m.mergeSetSizeLimit) ∨
      ∃ new, mergeSetIncreaseLoop m s parents size n visited queue counted.length = .ok (.newCandidate new) ∧
        InPast dag new candidate ∧ ¬ Below dag parents new := by
  have hdag : ∀ x ∈ done ++ queue, x ∈ hashes dag := fun x hx =>
    hs.validated.ancestor_mem (h.past x hx).1 hmem
  induction n generalizing done queue counted visited with
  | zero =>
    have hlen := (subperm_of_subset h.nodup hdag).length_le
    simp only [hashes, length_map, length_append] at hlen
    omega
  | succ n ih =>
    cases queue with
    | nil => exact .inl ⟨counted, rfl, h.counted_nodup, h.complete hcandidate, hlimit⟩
    | cons current queue =>
      have hcurrent := hdag current (by simp)
      have hbelow := hs.any_isAncestorOf hcurrent hparents
      unfold mergeSetIncreaseLoop
      by_cases hskip : Below dag parents current
      · rw [if_pos (hbelow.mpr hskip)]
        exact ih (h.skip hskip) (fun x => (hvisited x).trans perm_middle.mem_iff) hlimit
          (by simp only [length_cons]; omega) fun x hx => hdag x (perm_middle.mem_iff.mpr hx)
      rw [if_neg (fun hany => hskip (hbelow.mp hany))]
      split_ifs with hexceeds
      · exact .inr ⟨current, rfl, h.past current (by simp), hskip⟩
      obtain ⟨ps, hlookup, -, hps⟩ := hs.parents_eq hcurrent
      obtain ⟨hnewNodup, hnew⟩ := unvisited_spec visited ps
      simp only [lookupOrFail_eq hlookup, Except.mapError, ok_bind]
      have hstep : Increase dag parents candidate (current :: done) (queue ++ unvisited visited ps)
          (current :: counted) := by
        refine h.count hskip hnewNodup (fun x hx => ?_) (fun x hx => ?_) fun p hp => ?_
        · exact fun hin => ((hnew x).mp hx).2 ((hvisited x).mpr hin)
        · exact Ancestor.trans_inPast hs.validated.toTopological (.single ((hps x).mp ((hnew x).mp hx).1))
            (h.past current (by simp))
        · refine or_iff_not_imp_left.mpr fun hv => (hnew p).mpr ⟨(hps p).mpr hp, fun hin => hv ((hvisited p).mp hin)⟩
      refine ih hstep (fun x => ?_) (by simp only [length_cons]; omega)
        (by simp only [length_cons]; omega) fun x hx => hs.validated.ancestor_mem (hstep.past x hx).1 hmem
      have hin := hvisited x
      simp only [mem_append, mem_cons] at hin ⊢
      tauto

theorem mergeSetIncrease_spec {size : ℕ} (hrounds : dag.length < rounds)
    (hparents : ∀ p ∈ parents, p ∈ hashes dag) (hmem : candidate ∈ hashes dag)
    (hcandidate : ¬ Below dag parents candidate) (hlimit : size < m.mergeSetSizeLimit) :
    (∃ all : List DomainHash, mergeSetIncrease m rounds s candidate parents size =
        .ok (.canBeParent all.length) ∧ all.Nodup ∧
        (∀ x, x ∈ all ↔ Ancestor dag x candidate ∧ ¬ Below dag parents x) ∧ size + all.length ≤ m.mergeSetSizeLimit) ∨
      ∃ new, mergeSetIncrease m rounds s candidate parents size = .ok (.newCandidate new) ∧
        InPast dag new candidate ∧ ¬ Below dag parents new := by
  obtain ⟨ps, hlookup, hnodup, hps⟩ := hs.parents_eq hmem
  have hstart : Increase dag parents candidate [] ps [candidate] := by
    refine ⟨by simpa using hnodup, fun x hx => hs.inPast_parent ((hps x).mp (by simpa using hx)),
      fun p hp => by simpa using (hps p).mpr hp, by simp, nodup_singleton _, by simp⟩
  unfold mergeSetIncrease
  simp only [lookupOrFail_eq hlookup, Except.mapError, ok_bind]
  exact mergeSetIncreaseLoop_spec hs hparents hmem hcandidate hstart (by simp) (by simpa using hlimit)
    (by simpa using hrounds)

/-! ## The loop over the candidates -/

omit hs in
structure Picked (m : VirtualManager) (dag : List Block) (st : Stores) (v : DomainHash)
    (selected candidates : List DomainHash) (size : ℕ) : Prop where
  first : selected.head? = some v
  nodup : (selected ++ candidates).Nodup
  mem : ∀ x ∈ selected ++ candidates, x ∈ hashes dag
  antichain : ∀ x ∈ selected ++ candidates, ∀ y ∈ selected ++ candidates, x ≠ y → ¬ Ancestor dag x y
  below : ∀ x ∈ selected ++ candidates, x ≠ v → st.key x < st.key v
  merged : ∃ all : List DomainHash, all.Nodup ∧
    (∀ x, x ∈ all ↔ x = v ∨ Below dag selected x ∧ ¬ Ancestor dag x v) ∧ all.length = size
  limit : size ≤ m.mergeSetSizeLimit
  count : selected.length ≤ m.maxBlockParents

variable {v : DomainHash} {selected candidates : List DomainHash} {size : ℕ}

omit hs in
theorem Picked.subset {candidates' : List DomainHash} (h : Picked m dag s.stores v selected candidates size)
    (hsub : candidates'.Sublist candidates) : Picked m dag s.stores v selected candidates' size := by
  have hin := (List.Sublist.refl selected).append hsub
  exact ⟨h.first, h.nodup.sublist hin, fun x hx => h.mem x (hin.subset hx),
    fun x hx y hy => h.antichain x (hin.subset hx) y (hin.subset hy), fun x hx => h.below x (hin.subset hx),
    h.merged, h.limit, h.count⟩

variable (h : Picked m dag s.stores v selected (candidate :: candidates) size)
include h

omit hs in
theorem Picked.add {all : List DomainHash} (hall : all.Nodup)
    (hmem : ∀ x, x ∈ all ↔ Ancestor dag x candidate ∧ ¬ Below dag selected x)
    (hlimit : size + all.length ≤ m.mergeSetSizeLimit) (hcount : selected.length < m.maxBlockParents) :
    Picked m dag s.stores v (selected ++ [candidate]) candidates (size + all.length) := by
  have hlist : selected ++ [candidate] ++ candidates = selected ++ candidate :: candidates := by simp
  have hv := mem_of_mem_head? h.first
  obtain ⟨old, hold, hiff, hlen⟩ := h.merged
  have hbelow : ∀ x, Below dag (selected ++ [candidate]) x ↔ Below dag selected x ∨ Ancestor dag x candidate := by
    intro x
    constructor
    · rintro ⟨p, hp, hxp⟩
      rcases mem_append.mp hp with hp | hp
      · exact .inl ⟨p, hp, hxp⟩
      · exact .inr (mem_singleton.mp hp ▸ hxp)
    · rintro (⟨p, hp, hxp⟩ | hxc)
      · exact ⟨p, mem_append_left _ hp, hxp⟩
      · exact ⟨candidate, by simp, hxc⟩
  refine ⟨?_, hlist ▸ h.nodup, hlist ▸ h.mem, hlist ▸ h.antichain, hlist ▸ h.below,
    ⟨old ++ all, nodup_append.mpr ⟨hold, hall, ?_⟩, fun x => ?_, by simp [hlen]⟩, hlimit, by simpa using hcount⟩
  · rw [List.head?_append, h.first]
    rfl
  · rintro x hx y hy rfl
    refine ((hmem x).mp hy).2 ?_
    rcases (hiff x).mp hx with rfl | hx
    · exact ⟨x, hv, .refl⟩
    · exact hx.1
  rw [mem_append, hiff, hmem, hbelow]
  constructor
  · rintro ((rfl | ⟨hx, hxv⟩) | ⟨hxc, hx⟩)
    · exact .inl rfl
    · exact .inr ⟨.inl hx, hxv⟩
    · exact .inr ⟨.inr hxc, fun hxv => hx ⟨v, hv, hxv⟩⟩
  rintro (rfl | ⟨hx, hxv⟩)
  · exact .inl (.inl rfl)
  by_cases hb : Below dag selected x
  · exact .inl (.inr ⟨hb, hxv⟩)
  · exact .inr ⟨hx.resolve_left hb, hb⟩

theorem Picked.replace {new : DomainHash} (hpast : InPast dag new candidate)
    (hnot : ¬ Below dag selected new) (hother : ∀ c ∈ candidates, ¬ Ancestor dag c new) :
    Picked m dag s.stores v selected ((candidates.filter fun hash => !m.isAncestorOf new hash) ++ [new]) size := by
  have hcandidate := h.mem candidate (by simp)
  have hnew := hs.validated.ancestor_mem hpast.1 hcandidate
  have hv := mem_of_mem_head? h.first
  have hfilter : ∀ x ∈ candidates.filter (fun hash => !m.isAncestorOf new hash),
      x ∈ candidates ∧ ¬ Ancestor dag new x := by
    intro x hx
    obtain ⟨hx, hanc⟩ := mem_filter.mp hx
    refine ⟨hx, fun hnx => ?_⟩
    have htrue : m.isAncestorOf new x = true := (hs.ancestors new hnew x (h.mem x (by simp [hx]))).mpr hnx
    simp [htrue] at hanc
  have hsplit : ∀ x ∈ selected ++ ((candidates.filter fun hash => !m.isAncestorOf new hash) ++ [new]),
      x = new ∨ (x ∈ selected ++ candidate :: candidates ∧ ¬ Ancestor dag x new ∧ ¬ Ancestor dag new x) := by
    intro x hx
    simp only [mem_append, mem_singleton] at hx
    rcases hx with hx | hx | hx
    · refine .inr ⟨by simp [hx], fun hxn => ?_, fun hnx => hnot ⟨x, hx, hnx⟩⟩
      -- A parent below the new candidate would be below the old one.
      have hne : x ≠ candidate := fun heq =>
        (nodup_append.mp h.nodup).2.2 x hx candidate (by simp) heq
      exact h.antichain x (by simp [hx]) candidate (by simp) hne (hxn.trans hpast.1)
    · obtain ⟨hxc, hnx⟩ := hfilter x hx
      exact .inr ⟨by simp [hxc], hother x hxc, hnx⟩
    · exact .inl hx
  refine ⟨h.first, ?_, fun x hx => ?_, fun x hx y hy hne => ?_, fun x hx hxv => ?_, h.merged, h.limit, h.count⟩
  · have hsub : (selected ++ candidates.filter fun hash => !m.isAncestorOf new hash).Sublist
        (selected ++ candidate :: candidates) :=
      (List.Sublist.refl selected).append (filter_sublist.trans (sublist_cons_self _ _))
    rw [← append_assoc]
    refine nodup_append.mpr ⟨h.nodup.sublist hsub, nodup_singleton _, ?_⟩
    rintro x hx y hy rfl
    obtain rfl := mem_singleton.mp hy
    rcases mem_append.mp hx with hx | hx
    · exact hnot ⟨x, hx, .refl⟩
    · exact (hfilter x hx).2 .refl
  · rcases hsplit x hx with rfl | ⟨hx, -, -⟩
    · exact hnew
    · exact h.mem x hx
  · rcases hsplit x hx with rfl | ⟨hx, hxn, hnx⟩
    · rcases hsplit y hy with rfl | ⟨-, -, hny⟩
      · exact absurd rfl hne
      · exact hny
    rcases hsplit y hy with rfl | ⟨hy, -, -⟩
    · exact hxn
    · exact h.antichain x hx y hy hne
  · rcases hsplit x hx with rfl | ⟨hx, -, -⟩
    · have hcv : candidate ≠ v := fun heq =>
        (nodup_append.mp h.nodup).2.2 v hv candidate (by simp) heq.symm
      exact (hs.key_lt hpast hcandidate).trans (h.below candidate (by simp) hcv)
    · exact h.below x hx hxv

omit h
omit hs in
def weight (dag : List Block) (candidates : List DomainHash) : ℕ :=
  (candidates.map fun c => (hashes dag).idxOf c + 1).sum

omit hs in
theorem weight_filter_le (dag : List Block) (candidates : List DomainHash) (f : DomainHash → Bool) :
    weight dag (candidates.filter f) ≤ weight dag candidates := by
  induction candidates with
  | nil => exact le_rfl
  | cons c candidates ih =>
    unfold weight at ih ⊢
    rw [filter_cons]
    split_ifs
    · simpa using ih
    simp only [map_cons, sum_cons]
    omega

omit hs in
theorem weight_le (h : ∀ c ∈ candidates, c ∈ hashes dag) : weight dag candidates ≤ candidates.length * dag.length := by
  have hle : ∀ w ∈ candidates.map fun c => (hashes dag).idxOf c + 1, w ≤ dag.length := by
    intro w hw
    obtain ⟨c, hc, rfl⟩ := mem_map.mp hw
    have hlt := idxOf_lt_length_of_mem (h c hc)
    simpa [hashes] using hlt
  simpa [weight] using sum_le_card_nsmul _ _ hle

theorem selectParents_spec {n : ℕ} (hrounds : dag.length < rounds)
    (h : Picked m dag s.stores v selected candidates size) (hn : weight dag candidates < n) :
    ∃ parents size', selectParents m rounds s n candidates selected size = .ok parents ∧
      Picked m dag s.stores v parents [] size' := by
  induction n generalizing candidates selected size with
  | zero => omega
  | succ n ih =>
    unfold selectParents
    by_cases hgo : size < m.mergeSetSizeLimit ∧ selected.length < m.maxBlockParents
    · rw [if_pos hgo]
      cases candidates with
      | nil => exact ⟨selected, size, rfl, h⟩
      | cons c candidates =>
        have hc := h.mem c (by simp)
        have hselected : ∀ p ∈ selected, p ∈ hashes dag := fun p hp => h.mem p (by simp [hp])
        have hnot : ¬ Below dag selected c := by
          rintro ⟨p, hp, hcp⟩
          have hne : p ≠ c := fun heq => (nodup_append.mp h.nodup).2.2 p hp c (by simp) heq
          exact h.antichain c (by simp) p (by simp [hp]) hne.symm hcp
        have hweight : weight dag (c :: candidates) = (hashes dag).idxOf c + 1 + weight dag candidates := by
          simp [weight]
        rcases mergeSetIncrease_spec hs hrounds hselected hc hnot hgo.1 with
          ⟨all, hincrease, hall, hmem, hlimit⟩ | ⟨new, hincrease, hpast, hnew⟩
        · simp only [hincrease, ok_bind]
          exact ih (h.add hall hmem hlimit hgo.2) (by omega)
        simp only [hincrease, ok_bind]
        have hnewMem := hs.validated.ancestor_mem hpast.1 hc
        by_cases hskip : (candidates.any fun other => m.isAncestorOf other new) = true
        · rw [if_pos hskip]
          exact ih (h.subset (sublist_cons_self _ _)) (by omega)
        rw [if_neg hskip]
        have hother : ∀ x ∈ candidates, ¬ Ancestor dag x new := by
          intro x hx hxn
          exact hskip (any_eq_true.mpr ⟨x, hx, (hs.ancestors x (h.mem x (by simp [hx])) new hnewMem).mpr hxn⟩)
        refine ih (h.replace hs hpast hnew hother) ?_
        have hle := weight_filter_le dag candidates fun hash => !m.isAncestorOf new hash
        have hlt := Dag.rank_lt_of_reaches hs.validated.rank_lt hpast.1 hpast.2
        have hsum : weight dag ((candidates.filter fun hash => !m.isAncestorOf new hash) ++ [new]) =
            weight dag (candidates.filter fun hash => !m.isAncestorOf new hash) + ((hashes dag).idxOf new + 1) := by
          simp [weight]
        omega
    · rw [if_neg hgo]
      exact ⟨selected, size, rfl, h.subset (nil_sublist _)⟩

omit hs in
theorem removeParent_spec (hnodup : (v :: others).Nodup) (hx : x ∈ others) :
    ∃ others', removeParent (v :: others) x = v :: others' ∧ others'.Perm (others.erase x) := by
  have hv : v ≠ x := fun heq => (nodup_cons.mp hnodup).1 (heq ▸ hx)
  obtain ⟨pre, post, rfl⟩ := append_of_mem hx
  have hpre : x ∉ pre := fun hin =>
    (nodup_append.mp (nodup_cons.mp hnodup).2).2.2 x hin x (by simp) rfl
  have hidx : (v :: (pre ++ x :: post)).findIdx? (· = x) = some (pre.length + 1) := by
    have hnone : pre.findIdx? (· = x) = none :=
      List.findIdx?_eq_none_iff.mpr fun y hy => decide_eq_false fun heq => hpre (heq ▸ hy)
    rw [List.findIdx?_cons, List.findIdx?_append, hnone]
    simp [hv, List.findIdx?_cons]
  have herase : (pre ++ x :: post).erase x = pre ++ post := by
    rw [erase_append_right _ hpre, erase_cons_head]
  rw [herase]
  unfold removeParent
  rw [hidx]
  rcases eq_nil_or_concat post with rfl | ⟨post, last, rfl⟩
  · refine ⟨pre, ?_, by simp⟩
    have hlast : (v :: (pre ++ [x])).getLast? = some x := by
      rw [← cons_append, List.getLast?_append]
      rfl
    simp only [hlast, set_cons_succ, set_append_right _ _ le_rfl, Nat.sub_self, set_cons_zero]
    rw [← cons_append, dropLast_concat]
  refine ⟨pre ++ last :: post, ?_, ?_⟩
  · have hshape : ∀ y, v :: (pre ++ y :: (post.concat last)) = (v :: (pre ++ y :: post)) ++ [last] := by simp
    have hlast : (v :: (pre ++ x :: (post.concat last))).getLast? = some last := by
      rw [hshape, List.getLast?_append]
      rfl
    simp only [hlast, set_cons_succ, set_append_right _ _ le_rfl, Nat.sub_self, set_cons_zero]
    rw [hshape, dropLast_concat]
  · rw [concat_eq_append]
    exact (perm_append_singleton last post).symm.append_left pre

omit hs in
theorem removeParents_spec {removed : List DomainHash} (hnodup : (v :: others).Nodup)
    (hremoved : removed.Nodup) (hsub : ∀ x ∈ removed, x ∈ others) :
    ∃ others', removed.foldl removeParent (v :: others) = v :: others' ∧
      others'.Perm (others.filter (· ∉ removed)) := by
  induction removed generalizing others with
  | nil => exact ⟨others, rfl, by simp⟩
  | cons x removed ih =>
    obtain ⟨hv, hothers⟩ := nodup_cons.mp hnodup
    obtain ⟨hx, hremoved'⟩ := nodup_cons.mp hremoved
    obtain ⟨others₁, hone, hperm⟩ := removeParent_spec hnodup (hsub x (by simp))
    have hmem : ∀ y, y ∈ others₁ ↔ y ≠ x ∧ y ∈ others := fun y => by
      rw [hperm.mem_iff, hothers.mem_erase_iff]
    have hnodup₁ := nodup_cons.mpr ⟨fun hin => hv ((hmem v).mp hin).2, hperm.nodup_iff.mpr (hothers.erase x)⟩
    obtain ⟨others₂, hrest, hperm₂⟩ := ih hnodup₁ hremoved' fun y hy =>
      (hmem y).mpr ⟨fun heq => hx (heq ▸ hy), hsub y (by simp [hy])⟩
    refine ⟨others₂, by rw [foldl_cons, hone, hrest], hperm₂.trans ?_⟩
    refine (perm_ext_iff_of_nodup ((nodup_cons.mp hnodup₁).2.filter _) (hothers.filter _)).mpr fun y => ?_
    simp only [mem_filter, hmem, mem_cons, not_or, decide_eq_true_iff]
    tauto

/-! ## The bounded merge rule -/

theorem DagState.boundedMergeBreakingParents_spec (hrounds : dag.length < rounds)
    (hjoin : Joinable dag dag parents) (hne : parents ≠ []) :
    ∃ d sp root bad, setVirtualParents m rounds s parents = .ok { s with virtual := d } ∧
      MergeData dag s.stores ⟨virtualBlockHash, parents, 0⟩ d sp ∧
      calculateMergeDepthRoot m rounds { s with virtual := d } virtualBlockHash = .ok root ∧
      bad = d.mergeSetReds.filter (isBadRed m root (nonBoundedMergeDepthViolatingBlues m d root)) ∧
      boundedMergeBreakingParents m rounds s parents =
        .ok (parents.filter fun parent => bad.any fun badRed => m.isAncestorOf badRed parent) := by
  obtain ⟨d, sp, hset, hmerge⟩ := hs.setVirtualParents_spec rounds hrounds hjoin hne
  have hsp := hjoin.mem sp hmerge.mem
  obtain ⟨root, hroot⟩ : ∃ root, calculateMergeDepthRoot m rounds { s with virtual := d } virtualBlockHash = .ok root :=
    hs.pointAtDepth_returns rounds hsp hrounds hmerge.selectedParent hs.roots
  refine ⟨d, sp, root, _, hset, hmerge, hroot, rfl, ?_⟩
  simp only [boundedMergeBreakingParents, hset, ok_bind, badReds, hroot]
  rfl

omit hs

/-- The parents before the bounded merge rule is asked. -/
structure Selection (m : VirtualManager) (dag : List Block) (s : State) (tips : List DomainHash) (v : DomainHash)
    (others : List DomainHash) : Prop where
  candidate : Candidate s dag tips v
  valid : IsValid s v
  greatest : ∀ u, Candidate s dag tips u → IsValid s u → s.stores.key u ≤ s.stores.key v
  picked : ∃ size, Picked m dag s.stores v (v :: others) [] size

/-- The virtual block over the selected parents, and the parents that are kept: those with no bad red in their past. -/
structure Removal (m : VirtualManager) (rounds : ℕ) (dag : List Block) (s : State) (v : DomainHash)
    (others kept : List DomainHash) (d : BlockGHOSTDAGData) (root : DomainHash) : Prop where
  virtual : setVirtualParents m rounds s (v :: others) = .ok { s with virtual := d }
  merge : MergeData dag s.stores ⟨virtualBlockHash, v :: others, 0⟩ d v
  mergeDepthRoot : calculateMergeDepthRoot m rounds { s with virtual := d } virtualBlockHash = .ok root
  nodup : kept.Nodup
  kept : ∀ p, p ∈ kept ↔ p ∈ others ∧ ∀ red ∈ d.mergeSetReds,
    isBadRed m root (nonBoundedMergeDepthViolatingBlues m d root) red = true → m.isAncestorOf red p = false

structure Outcome (m : VirtualManager) (rounds : ℕ) (dag : List Block) (s : State) (tips : List DomainHash)
    (v : DomainHash) (others : List DomainHash) (d : BlockGHOSTDAGData) : Prop where
  candidate : Candidate s dag tips v
  valid : IsValid s v
  greatest : ∀ u, Candidate s dag tips u → IsValid s u → s.stores.key u ≤ s.stores.key v
  joinable : Joinable dag dag (v :: others)
  count : (v :: others).length ≤ m.maxBlockParents
  virtual : setVirtualParents m rounds s (v :: others) = .ok { s with virtual := d }
  selectedParent : d.selectedParent = some v
  mergeSet : (mergeSet d).length ≤ m.mergeSetSizeLimit

variable {tips : List DomainHash}

theorem Picked.joinable (h : Picked m dag s.stores v selected [] size) : Joinable dag dag selected := by
  have hlist : selected ++ [] = selected := append_nil _
  exact ⟨hlist ▸ h.mem, hlist ▸ h.nodup, hlist ▸ h.antichain⟩

theorem Joinable.subset {others' : List DomainHash} (h : Joinable dag dag (v :: others))
    (hnodup : others'.Nodup) (hsub : ∀ x ∈ others', x ∈ others) : Joinable dag dag (v :: others') := by
  have hin : ∀ x ∈ v :: others', x ∈ v :: others := fun x hx =>
    (mem_cons.mp hx).elim (fun heq => by simp [heq]) fun hx => by simp [hsub x hx]
  exact ⟨fun x hx => h.mem x (hin x hx), nodup_cons.mpr
    ⟨fun hv => (nodup_cons.mp h.nodup).1 (hsub v hv), hnodup⟩,
    fun x hx y hy => h.antichain x (hin x hx) y (hin y hy)⟩

theorem selectedParent_eq {d : BlockGHOSTDAGData} {sp : DomainHash}
    (hmerge : MergeData dag s.stores ⟨virtualBlockHash, v :: others, 0⟩ d sp)
    (hbelow : ∀ x ∈ others, s.stores.key x < s.stores.key v) : sp = v := by
  rcases mem_cons.mp hmerge.mem with heq | hsp
  · exact heq
  · exact absurd (hbelow sp hsp) (not_lt.mpr (hmerge.greatest v (by simp)))

theorem Selection.joinable (h : Selection m dag s tips v others) : Joinable dag dag (v :: others) := by
  obtain ⟨size, hpicked⟩ := h.picked
  exact hpicked.joinable

theorem Selection.below (h : Selection m dag s tips v others) (hx : x ∈ others) : s.stores.key x < s.stores.key v := by
  obtain ⟨size, hpicked⟩ := h.picked
  exact hpicked.below x (by simp [hx]) fun heq => (nodup_cons.mp h.joinable.nodup).1 (heq ▸ hx)

include hs

/-- The whole selection succeeds from any tips with a valid candidate. -/
theorem selectVirtualParents_spec (htips : AreTips s dag tips)
    (hlimit : 1 ≤ m.mergeSetSizeLimit) (hcount : 1 ≤ m.maxBlockParents)
    (hrounds : (m.maxBlockParents * 3 + 1) * (dag.length + 1) < rounds)
    (hvalid : ∃ v, Candidate s dag tips v ∧ IsValid s v) :
    ∃ v others, selectVirtualParents m rounds s tips = .ok (v :: others) ∧ Selection m dag s tips v others := by
  have hlen : dag.length < rounds := by nlinarith
  -- The selected parent.
  obtain ⟨heap, hpush, hheap⟩ := (candidateHeap_empty s.stores).pushAll hs htips.mem
  rw [append_nil] at hheap
  obtain ⟨v, rest, heap₁, hselect, hheap₁, hselected⟩ := selectVirtualSelectedParent_spec hs
    (search_start hs htips) (hheap.perm_list (reverse_perm tips)) hvalid (n := rounds) (by simpa using hlen)
  -- The other parents.
  obtain ⟨dropped, hdropped⟩ := popCandidates_spec hheap₁ (m.maxBlockParents * 3)
  set candidates := prioritizeCandidates m (popCandidates (m.maxBlockParents * 3) heap₁) with hcandidates
  have hperm := ((prioritizeCandidates_perm m _).append_right dropped).trans hdropped
  have hsub : ∀ x ∈ [v] ++ candidates, x ∈ v :: rest := by
    intro x hx
    rcases mem_cons.mp hx with rfl | hx
    · simp
    · exact mem_cons_of_mem _ (hperm.mem_iff.mp (mem_append_left _ hx))
  have hstart : Picked m dag s.stores v [v] candidates 1 := by
    refine ⟨rfl, ?_, fun x hx => hselected.mem x (hsub x hx),
      fun x hx y hy => hselected.antichain x (hsub x hx) y (hsub y hy), fun x hx hne => ?_,
      ⟨[v], nodup_singleton v, fun x => ?_, rfl⟩, hlimit, hcount⟩
    · have hnodup := (hperm.cons v).nodup_iff.mpr hselected.nodup
      exact hnodup.sublist ((sublist_append_left candidates dropped).cons_cons v)
    · exact hselected.below x ((mem_cons.mp (hsub x hx)).resolve_left hne)
    · simp [Below]
  have hweight : weight dag candidates < rounds := by
    have hle := weight_le fun c hc => hstart.mem c (mem_append_right _ hc)
    have hlength : candidates.length ≤ m.maxBlockParents * 3 := by
      rw [hcandidates, (prioritizeCandidates_perm m _).length_eq]
      exact popCandidates_length _ _
    calc weight dag candidates ≤ candidates.length * dag.length := hle
      _ ≤ m.maxBlockParents * 3 * dag.length := Nat.mul_le_mul_right _ hlength
      _ ≤ (m.maxBlockParents * 3 + 1) * (dag.length + 1) :=
        Nat.mul_le_mul (Nat.le_succ _) (Nat.le_succ _)
      _ < rounds := hrounds
  obtain ⟨selected, size, hloop, hpicked⟩ := selectParents_spec hs hlen hstart hweight
  obtain ⟨others, rfl⟩ : ∃ others, selected = v :: others := by
    cases selected with
    | nil => simpa using hpicked.first
    | cons x others => exact ⟨others, by rw [Option.some.inj hpicked.first]⟩
  refine ⟨v, others, ?_, hselected.candidate, hselected.valid, hselected.greatest, size, hpicked⟩
  simp only [selectVirtualParents, hpush, hselect, ← hcandidates, hloop, ok_bind]

theorem Selection.removal (h : Selection m dag s tips v others) (hrounds : dag.length < rounds)
    (hselect : selectVirtualParents m rounds s tips = .ok (v :: others)) :
    ∃ kept d root, pickVirtualParents m rounds s tips = .ok (v :: kept) ∧
      Removal m rounds dag s v others kept d root := by
  have hjoin := h.joinable
  obtain ⟨d, sp, root, bad, hset, hmerge, hroot, hbad, hbreaking⟩ :=
    hs.boundedMergeBreakingParents_spec hrounds hjoin (cons_ne_nil v others)
  obtain rfl := selectedParent_eq hmerge fun x hx => h.below hx
  -- No bad red is below the selected parent.
  have hothers : ∀ x ∈ (sp :: others).filter (fun parent => bad.any fun badRed => m.isAncestorOf badRed parent),
      x ∈ others := by
    intro x hx
    obtain ⟨hx, hany⟩ := mem_filter.mp hx
    refine (mem_cons.mp hx).resolve_left ?_
    rintro rfl
    obtain ⟨y, hy, hanc⟩ := any_eq_true.mp hany
    have hyred : y ∈ d.mergeSetBlues.tail ++ d.mergeSetReds :=
      mem_append_right _ (mem_filter.mp (hbad ▸ hy)).1
    obtain ⟨⟨p, hp, -, hyp⟩, hnot⟩ := (hmerge.merged y).mp hyred
    exact hnot ((hs.ancestors y (hs.validated.ancestor_mem hyp (hjoin.mem p hp)) x (hjoin.mem x (by simp))).mp hanc)
  obtain ⟨kept, hremove, hkept⟩ := removeParents_spec hjoin.nodup (hjoin.nodup.filter _) hothers
  refine ⟨kept, d, root, ?_, hset, hmerge, hroot,
    hkept.nodup_iff.mpr ((nodup_cons.mp hjoin.nodup).2.filter _), fun p => ?_⟩
  · simp only [pickVirtualParents, hselect, hbreaking, ok_bind, hremove]
    rfl
  rw [hkept.mem_iff, mem_filter, decide_eq_true_eq, mem_filter, hbad]
  refine and_congr_right fun hp => ?_
  simp only [mem_cons_of_mem _ hp, true_and, any_eq_true, mem_filter, not_exists, not_and, Bool.not_eq_true, and_imp]

theorem Removal.outcome {kept : List DomainHash} {d : BlockGHOSTDAGData} {root : DomainHash}
    (h : Selection m dag s tips v others) (hrounds : dag.length < rounds)
    (hremoval : Removal m rounds dag s v others kept d root) :
    ∃ d', Outcome m rounds dag s tips v kept d' ∧ MergeData dag s.stores ⟨virtualBlockHash, v :: kept, 0⟩ d' v := by
  have hsub : ∀ x ∈ kept, x ∈ others := fun x hx => ((hremoval.kept x).mp hx).1
  have hjoin := Joinable.subset h.joinable hremoval.nodup hsub
  obtain ⟨d', sp, hset, hmerge⟩ := hs.setVirtualParents_spec rounds hrounds hjoin (cons_ne_nil v kept)
  obtain rfl := selectedParent_eq hmerge fun x hx => h.below (hsub x hx)
  obtain ⟨size, hpicked⟩ := h.picked
  refine ⟨d', ⟨h.candidate, h.valid, h.greatest, hjoin, ?_, hset, hmerge.selectedParent, ?_⟩, hmerge⟩
  · have hle := (subperm_of_subset hremoval.nodup hsub).length_le
    have hcount := hpicked.count
    simp only [length_cons] at hcount ⊢
    omega
  -- Merged blocks are counted ones.
  obtain ⟨all, hall, hiff, hsize⟩ := hpicked.merged
  have hle := (subperm_of_subset hmerge.nodup_mergeSet fun x hx => (hiff x).mpr ?_).length_le
  · have hlimit := hpicked.limit
    omega
  rw [hmerge.mergeSet_eq] at hx
  rcases mem_cons.mp hx with rfl | hx
  · exact .inl rfl
  obtain ⟨⟨p, hp, -, hxp⟩, hnot⟩ := (hmerge.merged x).mp hx
  refine .inr ⟨⟨p, ?_, hxp⟩, hnot⟩
  rcases mem_cons.mp hp with rfl | hp
  · simp
  · simp [hsub p hp]

theorem pickVirtualParents_returns (htips : AreTips s dag tips)
    (hlimit : 1 ≤ m.mergeSetSizeLimit) (hcount : 1 ≤ m.maxBlockParents)
    (hrounds : (m.maxBlockParents * 3 + 1) * (dag.length + 1) < rounds)
    (hvalid : ∃ v, Candidate s dag tips v ∧ IsValid s v) :
    ∃ v others d, pickVirtualParents m rounds s tips = .ok (v :: others) ∧
      Outcome m rounds dag s tips v others d := by
  have hlen : dag.length < rounds := by nlinarith
  obtain ⟨v, others, hselect, h⟩ := selectVirtualParents_spec hs htips hlimit hcount hrounds hvalid
  obtain ⟨kept, d, root, hpick, hremoval⟩ := h.removal hs hlen hselect
  obtain ⟨d', houtcome, -⟩ := hremoval.outcome hs h hlen
  exact ⟨v, kept, d', hpick, houtcome⟩

end

/-! ## States over a DAG -/

def mapOver {V : Type} (dag : List Block) (f : DomainHash → V) : GoMap DomainHash V :=
  (hashes dag).foldl (fun entries h => entries.insert h (f h)) ∅

variable {dag : List Block}

theorem lookup_mapOver {V : Type} {f : DomainHash → V} {h : DomainHash} :
    (mapOver dag f).lookup h = if h ∈ hashes dag then some (f h) else none := by
  split_ifs with hmem
  · exact GoMap.lookup_puts_of_mem (fun x _ hx => congrArg f hx) (by simpa using hmem)
  · exact GoMap.lookup_puts_of_notMem (by simpa using hmem)

def stateOver (dag : List Block) (st : Stores) (status : DomainHash → BlockStatus) (root point : DomainHash → DomainHash)
    (pruningPoint : DomainHash) : State where
  stores := st
  children := mapOver dag fun h => (dag.filter fun b => h ∈ b.parents).map Block.hash
  status := mapOver dag status
  mergeDepthRoots := mapOver dag root
  finalityPoints := mapOver dag point
  pruningPoint := pruningPoint
  virtual := ⟨0, 0, none, [], [], ∅⟩

/-- For a DAG that is given as a list all hypotheses can be evaluated. -/
theorem dagState_over {g : Ghostdag.Manager} {powMax n : ℕ} {st : Stores} {status : DomainHash → BlockStatus}
    {root point : DomainHash → DomainHash} {pruningPoint : DomainHash}
    (hstores : (addBlocks g n dag Stores.empty).toOption.getD Stores.empty = st)
    (h : checkDAG g dag = true ∧ (powMax < 2 ^ 256 - 1 ∧
        (∀ b ∈ dag, 0 < Difficulty.compactToBig b.bits) ∧ ∀ b ∈ dag, Difficulty.compactToBig b.bits ≤ powMax) ∧
      (dag.length ≤ n ∧ dag.length < 2 ^ 64 ∧ g.k < 255 ∧ virtualBlockHash ∉ hashes dag ∧ pruningPoint ∈ hashes dag) ∧
      (∀ b ∈ dag, ∀ p ∈ b.parents, status p = .headerOnly → status b.hash = .headerOnly) ∧
      ∀ h ∈ hashes dag, chainHas g.genesisHash st (root h) (score st h + 1) h = true ∧
        chainHas g.genesisHash st (point h) (score st h + 1) h = true)
    (mergeSetSizeLimit maxBlockParents mergeDepth finalityDepth : ℕ) :
    DagState ⟨Sync.managerOver g dag st mergeSetSizeLimit, g.k, maxBlockParents, mergeDepth, finalityDepth⟩ powMax
      dag (stateOver dag st status root point pruningPoint) := by
  obtain ⟨hcheck, ⟨hpow, hpositive, hbounded⟩, ⟨hn, hlen, hk, hvirtual, hpruning⟩, hstatus, hpoints⟩ := h
  obtain ⟨hdag, hcorrect⟩ := isDAG_of_checkDAG hcheck
  have hvalidated : Validated g powMax dag := ⟨hdag, hpow, hpositive, hbounded⟩
  have hst : Recorded g dag dag st := hstores ▸ recorded_of_checkDAG hcheck hk hn
  have htree := selectedTree_of_recorded hvalidated.toIsDAG hst hlen
  have hmem : ∀ p c, IsParent dag p c → p ∈ hashes dag ∧ c ∈ hashes dag := by
    intro p c hedge
    refine ⟨hvalidated.parent_mem hedge, ?_⟩
    obtain ⟨b, hb, rfl, -⟩ := hedge
    exact mem_hashes hb
  refine ⟨hvalidated, hst, hlen, hk, hvirtual, hcorrect, chainsCorrect_managerOf htree,
    Sync.childrenCorrect_managerOver htree (fun h ⟨d, hd⟩ => hst.only h d hd) _, fun h hh => ?_, fun h hh => ?_,
    fun p c hedge => ?_, fun h hh _ => ?_, fun h hh _ => ?_, hpruning⟩
  · refine ⟨_, by rw [stateOver, lookup_mapOver, if_pos hh], fun c _ => ?_⟩
    simp only [mem_map, mem_filter, decide_eq_true_iff, IsParent]
    constructor
    · rintro ⟨b, ⟨hb, hp⟩, rfl⟩
      exact ⟨b, hb, rfl, hp⟩
    rintro ⟨b, hb, rfl, hp⟩
    exact ⟨b, ⟨hb, hp⟩, rfl⟩
  · exact ⟨status h, by rw [stateOver, lookup_mapOver, if_pos hh]⟩
  · obtain ⟨hp, hc⟩ := hmem p c hedge
    obtain ⟨b, hb, rfl, hpb⟩ := hedge
    simp only [stateOver, lookup_mapOver, if_pos hp, if_pos hc, Option.some.injEq]
    exact hstatus b hb p hpb
  · refine ⟨root h, ?_, .inr ((chainHas_iff htree (Nat.lt_succ_self _)).mp (hpoints h hh).1)⟩
    simp only [stateOver, lookup_mapOver, if_pos hh, Option.some_or]
  · refine ⟨point h, ?_, .inr ((chainHas_iff htree (Nat.lt_succ_self _)).mp (hpoints h hh).2)⟩
    simp only [stateOver, lookup_mapOver, if_pos hh]

/-- The first parent is the greatest UTXO valid candidate, none is an ancestor of another, and the limits hold. -/
theorem pickVirtualParents_spec {m : VirtualManager} {s : State} {powMax : ℕ} {dag : List Block}
    (hs : DagState m powMax dag s) {rounds : ℕ} {tips : List DomainHash} (htips : AreTips s dag tips)
    (hlimit : 1 ≤ m.mergeSetSizeLimit) (hcount : 1 ≤ m.maxBlockParents)
    (hrounds : (m.maxBlockParents * 3 + 1) * (dag.length + 1) < rounds)
    (hvalid : ∃ v, Candidate s dag tips v ∧ s.status.lookup v = some .utxoValid) :
    ∃ v others d, pickVirtualParents m rounds s tips = .ok (v :: others) ∧ (v :: others).Nodup ∧
      (∀ x ∈ v :: others, ∀ y ∈ v :: others, x ≠ y → ¬ Ancestor dag x y) ∧ (v :: others).length ≤ m.maxBlockParents ∧
      (Candidate s dag tips v ∧ s.status.lookup v = some .utxoValid ∧
        ∀ u, Candidate s dag tips u → s.status.lookup u = some .utxoValid → s.stores.key u ≤ s.stores.key v) ∧
      setVirtualParents m rounds s (v :: others) = .ok { s with virtual := d } ∧ d.selectedParent = some v ∧
      (d.mergeSetBlues ++ d.mergeSetReds).length ≤ m.mergeSetSizeLimit := by
  obtain ⟨v, others, d, hpick, h⟩ := pickVirtualParents_returns hs htips hlimit hcount hrounds hvalid
  exact ⟨v, others, d, hpick, h.joinable.nodup, h.joinable.antichain, h.count,
    ⟨h.candidate, h.valid, h.greatest⟩, h.virtual, h.selectedParent, h.mergeSet⟩

/-! ## A tip that is not resolved yet

Blocks 2 and 3 are tips: block 4 over them is known by its header. -/

def pendingTipManager : VirtualManager :=
  ⟨Sync.managerOver diamondManager diamond diamondStores 10, diamondManager.k, 5, 10, 20⟩

def pendingTipState : State :=
  stateOver diamond diamondStores
    (fun h => if h = 3 then .utxoPendingVerification else if h = 4 then .headerOnly else .utxoValid)
    (fun _ => 1) (fun _ => 1) 1

theorem pendingTip_dagState : DagState pendingTipManager (2 ^ 255 - 1) diamond pendingTipState :=
  dagState_over rfl (by decide +kernel) 10 5 10 20

theorem pendingTip_areTips : AreTips pendingTipState diamond [2, 3] := by
  obtain ⟨hbodies, hheader⟩ : (∀ t ∈ [2, 3], pendingTipState.status.lookup t ≠ some .headerOnly) ∧
      ∀ b ∈ diamond, ∀ t ∈ [2, 3], t ∈ b.parents → pendingTipState.status.lookup b.hash = some .headerOnly := by
    decide +kernel
  refine ⟨by decide, by decide, hbodies, ?_⟩
  rintro t ht _ ⟨b, hb, rfl, hparent⟩ hbody
  exact hbody (hheader b hb t ht hparent)

theorem pickVirtualParents_spec_pendingTip :
    ∃ v others d, pickVirtualParents pendingTipManager 100 pendingTipState [2, 3] = .ok (v :: others) ∧
      setVirtualParents pendingTipManager 100 pendingTipState (v :: others) =
        .ok { pendingTipState with virtual := d } ∧ d.selectedParent = some v := by
  obtain ⟨v, others, d, hpick, -, -, -, -, hset, hsp, -⟩ := pickVirtualParents_spec pendingTip_dagState
    pendingTip_areTips (by decide) (by decide) (show (5 * 3 + 1) * (4 + 1) < 100 by decide)
    ⟨2, .tip (by simp), by decide +kernel⟩
  exact ⟨v, others, d, hpick, hset, hsp⟩

/-- Block 3 is passed over: it is a greater candidate than the first parent, and would resolve in the same DAG. -/
theorem pickVirtualParents_skips_pending : DagState pendingTipManager (2 ^ 255 - 1) diamond pendingTipState ∧
      AreTips pendingTipState diamond [2, 3] ∧
      pickVirtualParents pendingTipManager 100 pendingTipState [2, 3] = .ok [2] ∧
      Candidate pendingTipState diamond [2, 3] 3 ∧
      pendingTipState.status.lookup 3 = some .utxoPendingVerification ∧
      pendingTipState.stores.key 2 < pendingTipState.stores.key 3 ∧
      sampleManager.ghostdagDataStore = pendingTipState.stores ∧
      ∃ S ms acceptanceData, UTXOValid sampleManager 3 S ms acceptanceData :=
  ⟨pendingTip_dagState, pendingTip_areTips, by decide +kernel, .tip (by simp), by decide +kernel, by decide +kernel,
    rfl, _, _, _, sample_sibling⟩

end Kaspad.ConsensusState
