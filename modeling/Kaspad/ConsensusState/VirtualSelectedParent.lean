import Kaspad.ConsensusState.PickVirtualParents

/-! # The selected parent of the virtual block

Candidates leave the heap from the greatest down. Those that left and were not valid are closed upward,
so that the candidates that are left are never ancestors of one another, and the first valid one is the
greatest.
-/

namespace Kaspad.ConsensusState
open Lib Ghostdag Traversal List BinaryHeap

/-! ## The heap -/

structure CandidateHeap (st : Stores) (l : List DomainHash) (heap : BlockHeap) : Prop where
  ordered : BinaryHeap.IsHeap (fun p q => pairKey q ≤ pairKey p) heap
  data : ∀ p ∈ heap.toList, st.data.lookup p.hash = some p.ghostdagData
  perm : (heap.toList.map BlockGHOSTDAGDataHashPair.hash).Perm l

theorem downHeapLess_compares : BinaryHeap.Compares downHeapLess fun p q => pairKey q ≤ pairKey p where
  of_true _ _ h := isLess_eq_false.mp (by simpa [downHeapLess, blockGHOSTDAGDataHashPairLess] using h)
  of_false _ _ h := (isLess_iff.mp (by simpa [downHeapLess, blockGHOSTDAGDataHashPairLess] using h)).le
  trans _ _ _ h h' := le_trans h' h

section
variable {m : VirtualManager} {s : State} {powMax : ℕ} {dag : List Block} (hs : DagState m powMax dag s)
  {l : List DomainHash} {heap : BlockHeap}

theorem candidateHeap_empty (st : Stores) : CandidateHeap st [] #[] :=
  ⟨fun k _ hk => by simp at hk, by simp, by simp⟩

include hs in
theorem CandidateHeap.push (h : CandidateHeap s.stores l heap) {x : DomainHash} (hx : x ∈ hashes dag) :
    ∃ heap', pushCandidate s heap x = .ok heap' ∧ CandidateHeap s.stores (x :: l) heap' := by
  obtain ⟨d, hd⟩ := hs.known hx
  obtain ⟨hheap, hperm⟩ := push_spec downHeapLess_compares h.ordered ⟨x, d⟩
  refine ⟨_, by simp only [pushCandidate, hs.get_eq hd, ok_bind, pure, Except.pure], hheap,
    fun p hp => ?_, (hperm.map _).trans (h.perm.cons x)⟩
  rcases mem_cons.mp (hperm.mem_iff.mp hp) with rfl | hp
  · exact hd
  · exact h.data p hp

include hs in
theorem CandidateHeap.pushAll {xs : List DomainHash} (h : CandidateHeap s.stores l heap)
    (hxs : ∀ x ∈ xs, x ∈ hashes dag) :
    ∃ heap', pushCandidates s xs heap = .ok heap' ∧ CandidateHeap s.stores (xs.reverse ++ l) heap' := by
  induction xs generalizing l heap with
  | nil => exact ⟨heap, rfl, h⟩
  | cons x xs ih =>
    obtain ⟨heap₁, hpush, h₁⟩ := h.push hs (hxs x (by simp))
    obtain ⟨heap₂, hrest, h₂⟩ := ih h₁ fun y hy => hxs y (by simp [hy])
    refine ⟨heap₂, ?_, by simpa using h₂⟩
    simp only [pushCandidates, hpush, ok_bind]
    exact hrest

variable {st : Stores}

theorem CandidateHeap.perm_list {l' : List DomainHash} (h : CandidateHeap st l heap)
    (hperm : l.Perm l') : CandidateHeap st l' heap := ⟨h.ordered, h.data, h.perm.trans hperm⟩

theorem CandidateHeap.pop (h : CandidateHeap st l heap) (hl : l ≠ []) :
    ∃ p heap' l', BinaryHeap.pop downHeapLess heap = some (p, heap') ∧ l.Perm (p.hash :: l') ∧
      CandidateHeap st l' heap' ∧ ∀ y ∈ l, st.key y ≤ st.key p.hash := by
  have hlen : heap.size = l.length := by simpa using h.perm.length_eq
  have hpos := length_pos_of_ne_nil hl
  obtain ⟨p, heap', hpop, -, hheap, hperm, hmax⟩ :=
    pop_spec downHeapLess_compares (fun _ => le_rfl) h.ordered (by omega)
  have hmem : ∀ q ∈ p :: heap'.toList, q ∈ heap.toList := fun q hq => hperm.mem_iff.mpr hq
  refine ⟨p, heap', heap'.toList.map BlockGHOSTDAGDataHashPair.hash, hpop,
    h.perm.symm.trans (hperm.map _), ⟨hheap, fun q hq => h.data q (hmem q (by simp [hq])), .refl _⟩, ?_⟩
  intro y hy
  obtain ⟨q, hq, rfl⟩ := mem_map.mp (h.perm.mem_iff.mpr hy)
  rw [key_eq (h.data q hq), key_eq (h.data p (hmem p (by simp)))]
  exact hmax q hq

end

/-! ## Candidates -/

def HasBody (s : State) (h : DomainHash) : Prop := s.status.lookup h ≠ some .headerOnly

def IsValid (s : State) (h : DomainHash) : Prop := s.status.lookup h = some .utxoValid

/-- The tips, and the blocks all of whose children are candidates that are not valid. -/
inductive Candidate (s : State) (dag : List Block) (tips : List DomainHash) : DomainHash → Prop
  | tip {t : DomainHash} : t ∈ tips → Candidate s dag tips t
  | parent {p c : DomainHash} : IsParent dag p c → HasBody s c →
      (∀ c, IsParent dag p c → HasBody s c → Candidate s dag tips c) →
      (∀ c, IsParent dag p c → HasBody s c → ¬ IsValid s c) → Candidate s dag tips p

/-- Blocks with bodies, none of which has a child with a body. -/
structure AreTips (s : State) (dag : List Block) (tips : List DomainHash) : Prop where
  nodup : tips.Nodup
  mem : ∀ t ∈ tips, t ∈ hashes dag
  body : ∀ t ∈ tips, HasBody s t
  childless : ∀ t ∈ tips, ∀ c, IsParent dag t c → ¬ HasBody s c

theorem areTips_of_childless {s : State} {dag : List Block} {tips : List DomainHash} (hnodup : tips.Nodup)
    (hmem : ∀ t ∈ tips, t ∈ hashes dag) (hbody : ∀ t ∈ tips, s.status.lookup t ≠ some .headerOnly)
    (hchildless : ∀ t ∈ tips, ∀ b ∈ dag, t ∉ b.parents) : AreTips s dag tips :=
  ⟨hnodup, hmem, hbody, fun t ht _ ⟨b, hb, _, hp⟩ => absurd hp (hchildless t ht b hb)⟩

structure Search (s : State) (dag : List Block) (tips done left : List DomainHash) : Prop where
  nodup : (done ++ left).Nodup
  mem : ∀ x ∈ done ++ left, x ∈ hashes dag
  body : ∀ x ∈ done ++ left, HasBody s x
  candidate : ∀ x ∈ done ++ left, Candidate s dag tips x
  invalid : ∀ x ∈ done, ¬ IsValid s x
  tips : ∀ t ∈ tips, t ∈ done ++ left
  closed : ∀ p c, c ∈ done → IsParent dag p c → (∀ c, IsParent dag p c → HasBody s c → c ∈ done) → p ∈ done ++ left
  above : ∀ x ∈ done, ∀ y ∈ left, s.stores.key y < s.stores.key x
  future : ∀ x ∈ done ++ left, ∀ y, HasBody s y → InPast dag x y → y ∈ done

variable {m : VirtualManager} {s : State} {powMax : ℕ} {dag : List Block} (hs : DagState m powMax dag s)
  {tips done left : List DomainHash} {x : DomainHash}
include hs

variable {c : DomainHash} {a b : DomainHash}

theorem DagState.body_of_ancestor (h : Ancestor dag a b) (hb : HasBody s b) : HasBody s a := by
  induction h with
  | refl => exact hb
  | tail _ hedge ih => exact ih fun hp => hb (hs.headerOnly _ _ hedge hp)

theorem DagState.inPast_parent {p : DomainHash} (h : IsParent dag p c) : InPast dag p c := by
  refine ⟨.single h, fun heq => ?_⟩
  have hlt := hs.validated.rank_lt p c h
  rw [heq] at hlt
  exact lt_irrefl _ hlt

theorem DagState.key_lt (h : InPast dag a b) (hb : b ∈ hashes dag) : s.stores.key a < s.stores.key b :=
  hs.recorded.key_lt hs.validated.toIsDAG hs.validated.positiveWork h hb

theorem DagState.parents_eq {x : DomainHash} (hx : x ∈ hashes dag) :
    ∃ ps, s.stores.parents.lookup x = some ps ∧ ps.Nodup ∧ ∀ p, p ∈ ps ↔ IsParent dag p x := by
  obtain ⟨b, hb, rfl⟩ := mem_map.mp hx
  refine ⟨b.parents, hs.recorded.knows.parents b hb, hs.validated.parentsNodup b hb, fun p => ?_⟩
  constructor
  · exact fun hp => ⟨b, hb, rfl, hp⟩
  rintro ⟨b', hb', hhash, hp⟩
  rwa [← hs.validated.block_ext hb' hb hhash]

theorem DagState.inPast_child (h : InPast dag a b) (hb : HasBody s b) :
    ∃ c, IsParent dag a c ∧ HasBody s c ∧ Ancestor dag c b := by
  obtain heq | ⟨c, hac, hcb⟩ := Relation.ReflTransGen.cases_head h.1
  · exact absurd heq h.2
  · exact ⟨c, hac, hs.body_of_ancestor hcb hb, hcb⟩

theorem search_start (htips : AreTips s dag tips) : Search s dag tips [] tips := by
  refine ⟨by simpa using htips.nodup, by simpa using htips.mem, by simpa using htips.body,
    fun x hx => .tip (by simpa using hx), by simp, by simp, by simp, by simp, fun x hx y hy hpast => ?_⟩
  obtain ⟨c, hedge, hc, -⟩ := hs.inPast_child hpast hy
  exact absurd hc (htips.childless x (by simpa using hx) c hedge)

variable (h : Search s dag tips done left)
include h

section
variable {p : DomainHash} (hx : x ∈ left)
include hx

/-- A parent of `x` is below it, so it has not left the heap; `x` is in its future, so it was not there. -/
theorem Search.fresh (hp : InPast dag p x) : p ∉ done ++ left := by
  have hxall : x ∈ done ++ left := mem_append_right _ hx
  intro hin
  obtain hin | hin := mem_append.mp hin
  · exact lt_asymm (h.above p hin x hx) (hs.key_lt hp (h.mem x hxall))
  · have hxdone := h.future p (mem_append_right _ hin) x (h.body x hxall) hp
    exact (nodup_append'.mp h.nodup).2.2 hxdone hx

variable (hchildren : ∀ c, IsParent dag p c → HasBody s c → c ∈ x :: done)
include hchildren

omit hs in
theorem Search.candidate_parent (hinvalid : ¬ IsValid s x) (hedge : IsParent dag p x) : Candidate s dag tips p := by
  have hxall : x ∈ done ++ left := mem_append_right _ hx
  refine .parent hedge (h.body x hxall) (fun c hc hbody => ?_) fun c hc hbody => ?_
  · obtain rfl | hcd := mem_cons.mp (hchildren c hc hbody)
    · exact h.candidate c hxall
    · exact h.candidate c (mem_append_left _ hcd)
  obtain rfl | hcd := mem_cons.mp (hchildren c hc hbody)
  · exact hinvalid
  · exact h.invalid c hcd

theorem Search.future_parent {z : DomainHash} (hz : HasBody s z) (hpz : InPast dag p z) : z ∈ x :: done := by
  obtain ⟨c, hedge, hbody, hcz⟩ := hs.inPast_child hpz hz
  have hc := hchildren c hedge hbody
  by_cases heq : c = z
  · exact heq ▸ hc
  have hcall : c ∈ done ++ left := by
    obtain rfl | hc := mem_cons.mp hc
    · exact mem_append_right _ hx
    · exact mem_append_left _ hc
  exact mem_cons_of_mem _ (h.future c hcall z hz ⟨hcz, heq⟩)

end

/-- The popped candidate is not valid: it leaves, and the parents all of whose children have left enter. -/
theorem Search.step {rest new : List DomainHash} (hperm : left.Perm (x :: rest))
    (hmax : ∀ y ∈ left, s.stores.key y ≤ s.stores.key x) (hx : ¬ IsValid s x) (hnew : new.Nodup)
    (hmem : ∀ p, p ∈ new ↔ IsParent dag p x ∧ ∀ c, IsParent dag p c → HasBody s c → c ∈ x :: done) :
    Search s dag tips (x :: done) (new ++ rest) := by
  have hxleft : x ∈ left := hperm.mem_iff.mpr (by simp)
  have hxall : x ∈ done ++ left := mem_append_right _ hxleft
  have hpast : ∀ p ∈ new, InPast dag p x := fun p hp => hs.inPast_parent ((hmem p).mp hp).1
  -- What is known after the step is what was known before and the new candidates.
  have hall : (x :: done ++ (new ++ rest)).Perm (new ++ (done ++ left)) := by
    have hdone : (done ++ left).Perm (x :: (done ++ rest)) := (hperm.append_left done).trans perm_middle
    refine .trans ?_ ((hdone.append_left new).trans perm_middle).symm
    rw [cons_append]
    exact ((perm_append_comm_assoc done new rest)).cons x
  have hwhole : ∀ P : DomainHash → Prop, (∀ y ∈ done ++ left, P y) → (∀ p ∈ new, P p) →
      ∀ y ∈ x :: done ++ (new ++ rest), P y :=
    fun P hold hadd y hy => (mem_append.mp (hall.mem_iff.mp hy)).elim (hadd y) (hold y)
  have hbefore : ∀ y ∈ done ++ left, y ∈ x :: done ++ (new ++ rest) :=
    fun y hy => hall.mem_iff.mpr (mem_append_right _ hy)
  refine ⟨?_, hwhole _ h.mem fun p hp => hs.validated.ancestor_mem (hpast p hp).1 (h.mem x hxall),
    hwhole _ h.body fun p hp => hs.body_of_ancestor (hpast p hp).1 (h.body x hxall),
    hwhole _ h.candidate fun p hp => h.candidate_parent hxleft ((hmem p).mp hp).2 hx ((hmem p).mp hp).1,
    forall_mem_cons.mpr ⟨hx, h.invalid⟩, fun t ht => hbefore t (h.tips t ht), ?_, ?_, ?_⟩
  · exact hall.nodup_iff.mpr (nodup_append'.mpr ⟨hnew, h.nodup, fun p hp => h.fresh hs hxleft (hpast p hp)⟩)
  · intro p c hc hedge hchildren
    by_cases hpx : IsParent dag p x
    · exact hall.mem_iff.mpr (mem_append_left _ ((hmem p).mpr ⟨hpx, hchildren⟩))
    -- Then `x` is not among the children, and they had all left before.
    have hold : ∀ c, IsParent dag p c → c ∈ x :: done → c ∈ done :=
      fun c hc hin => (mem_cons.mp hin).resolve_left fun heq => hpx (heq ▸ hc)
    exact hbefore p (h.closed p c (hold c hedge hc) hedge fun c hc hbody => hold c hc (hchildren c hc hbody))
  · have hrest := nodup_cons.mp (hperm.nodup_iff.mp (nodup_append.mp h.nodup).2.1)
    intro y hy z hz
    have hzx : s.stores.key z < s.stores.key x := by
      obtain hz | hz := mem_append.mp hz
      · exact hs.key_lt (hpast z hz) (h.mem x hxall)
      · exact lt_of_le_of_ne (hmax z (hperm.mem_iff.mpr (by simp [hz]))) fun heq => hrest.1 (key_injective heq ▸ hz)
    obtain rfl | hy := mem_cons.mp hy
    · exact hzx
    · exact hzx.trans (h.above y hy x hxleft)
  · exact hwhole _ (fun y hy z hz hyz => mem_cons_of_mem _ (h.future y hy z hz hyz))
      fun p hp z hz => h.future_parent hs hxleft ((hmem p).mp hp).2 hz

theorem Search.covers {u : DomainHash} (hu : Candidate s dag tips u) :
    u ∈ done ++ left ∨ ∃ y ∈ left, s.stores.key u < s.stores.key y := by
  induction hu with
  | tip ht => exact .inl (h.tips _ ht)
  | @parent p c hedge hbody _ _ ih =>
    by_cases hall : ∀ c, IsParent dag p c → HasBody s c → c ∈ done
    · exact .inl (h.closed p c (hall c hedge hbody) hedge hall)
    push Not at hall
    obtain ⟨c', hedge', hbody', hnot⟩ := hall
    have hmem : c' ∈ hashes dag := by
      obtain ⟨b, hb, rfl, -⟩ := hedge'
      exact mem_hashes hb
    have hlt := hs.key_lt (hs.inPast_parent hedge') hmem
    rcases ih c' hedge' hbody' with hin | ⟨y, hy, hcy⟩
    · exact .inr ⟨c', (mem_append.mp hin).resolve_left hnot, hlt⟩
    · exact .inr ⟨y, hy, hlt.trans hcy⟩

omit h

/-! ## The loops -/

theorem DagState.lookupStatus_eq {h : DomainHash} (hh : h ∈ hashes dag) :
    ∃ status, s.status.lookup h = some status ∧ lookupStatus s h = .ok status := by
  obtain ⟨status, hstatus⟩ := hs.status h hh
  exact ⟨status, hstatus, by simp only [lookupStatus, hstatus]; rfl⟩

theorem nonHeadersOnlyChildren_spec {l : List DomainHash} (hl : ∀ c ∈ l, c ≠ virtualBlockHash → c ∈ hashes dag) :
    ∃ l', nonHeadersOnlyChildren s l = .ok l' ∧ ∀ c, c ∈ l' ↔ c ∈ l ∧ c ≠ virtualBlockHash ∧ HasBody s c := by
  induction l with
  | nil => exact ⟨[], rfl, by simp⟩
  | cons c l ih =>
    obtain ⟨l', hrest, hmem⟩ := ih fun c' hc' => hl c' (by simp [hc'])
    unfold nonHeadersOnlyChildren
    by_cases hvirtual : c = virtualBlockHash
    · rw [if_pos hvirtual]
      refine ⟨l', hrest, fun c' => ?_⟩
      rw [hmem, mem_cons]
      refine ⟨fun hc' => ⟨.inr hc'.1, hc'.2⟩, fun hc' => ⟨hc'.1.resolve_left fun heq => ?_, hc'.2⟩⟩
      exact hc'.2.1 (heq.trans hvirtual)
    obtain ⟨status, hstatus, hlookup⟩ := hs.lookupStatus_eq (hl c (by simp) hvirtual)
    rw [if_neg hvirtual]
    simp only [hlookup, hrest, ok_bind, pure, Except.pure]
    refine ⟨_, rfl, fun c' => ?_⟩
    have hbody : HasBody s c ↔ status ≠ .headerOnly := by
      unfold HasBody
      rw [hstatus]
      simp
    split_ifs with hheader
    · rw [hmem, mem_cons]
      refine ⟨fun hc' => ⟨.inr hc'.1, hc'.2⟩, fun hc' => ⟨hc'.1.resolve_left fun heq => ?_, hc'.2⟩⟩
      exact (hbody.mp (heq ▸ hc'.2.2)) hheader
    rw [mem_cons, mem_cons, hmem]
    constructor
    · rintro (rfl | hc')
      · exact ⟨.inl rfl, hvirtual, hbody.mpr hheader⟩
      · exact ⟨.inr hc'.1, hc'.2⟩
    rintro ⟨rfl | hc', hrest'⟩
    · exact .inl rfl
    · exact .inr ⟨hc', hrest'⟩

variable {heap : BlockHeap}

theorem pushParents_spec {parents l : List DomainHash} (h : CandidateHeap s.stores l heap)
    (hnodup : parents.Nodup) (hparents : ∀ p ∈ parents, p ∈ hashes dag) :
    ∃ heap' new, pushParents s done parents heap = .ok heap' ∧ CandidateHeap s.stores (new ++ l) heap' ∧
      new.Nodup ∧ ∀ p, p ∈ new ↔ p ∈ parents ∧ ∀ c, IsParent dag p c → HasBody s c → c ∈ done := by
  induction parents generalizing l heap with
  | nil => exact ⟨heap, [], rfl, h, nodup_nil, by simp⟩
  | cons p parents ih =>
    obtain ⟨hp, hnodup⟩ := nodup_cons.mp hnodup
    have hrest := fun q hq => hparents q (mem_cons_of_mem p hq)
    obtain ⟨allChildren, hlookup, hall⟩ := hs.children p (hparents p (by simp))
    obtain ⟨children, hchildren, hmem⟩ := nonHeadersOnlyChildren_spec hs (l := allChildren) (by
      intro c hc hne
      obtain ⟨b, hb, rfl, -⟩ := (hall c hne).mp hc
      exact mem_hashes hb)
    have hdone : children.all (· ∈ done) = true ↔ ∀ c, IsParent dag p c → HasBody s c → c ∈ done := by
      simp only [all_eq_true, decide_eq_true_iff, hmem]
      constructor
      · intro hc c hedge hbody
        have hne : c ≠ virtualBlockHash := by
          obtain ⟨b, hb, rfl, -⟩ := hedge
          exact hs.ne_virtual (mem_hashes hb)
        exact hc c ⟨(hall c hne).mpr hedge, hne, hbody⟩
      · intro hc c ⟨hin, hne, hbody⟩
        exact hc c ((hall c hne).mp hin) hbody
    unfold pushParents
    simp only [lookupOrFail_eq hlookup, hchildren, Except.mapError, ok_bind]
    by_cases hpush : children.all (· ∈ done) = true
    · obtain ⟨heap₁, hpushed, h₁⟩ := h.push hs (hparents p (by simp))
      obtain ⟨heap₂, new, hloop, h₂, hnew, hiff⟩ := ih h₁ hnodup hrest
      refine ⟨heap₂, p :: new, ?_, h₂.perm_list perm_middle, nodup_cons.mpr ⟨fun hin => ?_, hnew⟩,
        fun q => ?_⟩
      · simp only [hpush, if_true, hpushed]
        exact hloop
      · exact hp ((hiff p).mp hin).1
      rw [mem_cons, mem_cons, hiff]
      constructor
      · rintro (rfl | ⟨hq, hc⟩)
        · exact ⟨.inl rfl, hdone.mp hpush⟩
        · exact ⟨.inr hq, hc⟩
      rintro ⟨rfl | hq, hc⟩
      · exact .inl rfl
      · exact .inr ⟨hq, hc⟩
    · obtain ⟨heap₂, new, hloop, h₂, hnew, hiff⟩ := ih h hnodup hrest
      refine ⟨heap₂, new, ?_, h₂, hnew, fun q => ?_⟩
      · simp only [hpush, Bool.false_eq_true, if_false]
        exact hloop
      rw [hiff, mem_cons]
      refine ⟨fun hq => ⟨.inr hq.1, hq.2⟩, fun hq => ⟨hq.1.resolve_left ?_, hq.2⟩⟩
      rintro rfl
      exact hpush (hdone.mpr hq.2)

omit hs in
/-- What the search leaves: the selected parent and lower blocks, none an ancestor of another. -/
structure Selected (s : State) (dag : List Block) (tips : List DomainHash) (v : DomainHash)
    (rest : List DomainHash) : Prop where
  candidate : Candidate s dag tips v
  valid : IsValid s v
  greatest : ∀ u, Candidate s dag tips u → IsValid s u → s.stores.key u ≤ s.stores.key v
  mem : ∀ x ∈ v :: rest, x ∈ hashes dag
  nodup : (v :: rest).Nodup
  below : ∀ y ∈ rest, s.stores.key y < s.stores.key v
  antichain : ∀ x ∈ v :: rest, ∀ y ∈ v :: rest, x ≠ y → ¬ Ancestor dag x y

include h in
/-- By induction on the candidates that have left; the invariant is `Search`. -/
theorem selectVirtualSelectedParent_spec {n : ℕ} (hheap : CandidateHeap s.stores left heap)
    (hvalid : ∃ v, Candidate s dag tips v ∧ IsValid s v) (hn : dag.length < n + done.length) :
    ∃ v rest heap', selectVirtualSelectedParent s n done heap = .ok (v, heap') ∧
      CandidateHeap s.stores rest heap' ∧ Selected s dag tips v rest := by
  induction n generalizing done left heap with
  | zero =>
    have hlen := (subperm_of_subset (nodup_append.mp h.nodup).1 fun x hx =>
      h.mem x (mem_append_left _ hx)).length_le
    simp only [hashes, length_map] at hlen
    omega
  | succ n ih =>
    unfold selectVirtualSelectedParent
    by_cases hleft : left = []
    · -- All candidates have left the heap, the valid one as well.
      subst hleft
      obtain ⟨v, hv, hvv⟩ := hvalid
      rcases h.covers hs hv with hin | ⟨y, hy, -⟩
      · exact absurd hvv (h.invalid v (by simpa using hin))
      · simp at hy
    obtain ⟨p, heap₁, rest, hpop, hperm, hheap₁, hmax⟩ := hheap.pop hleft
    have hpleft : p.hash ∈ left := hperm.mem_iff.mpr (by simp)
    have hpdag := h.mem p.hash (mem_append_right _ hpleft)
    obtain ⟨status, hstatus, hlookup⟩ := hs.lookupStatus_eq hpdag
    rw [hpop]
    simp only [hlookup, bind, Except.bind]
    by_cases hutxo : status = .utxoValid
    · have hsub : ∀ x ∈ p.hash :: rest, x ∈ left := fun x hx => hperm.mem_iff.mpr hx
      have hnodup := hperm.nodup_iff.mp (nodup_append.mp h.nodup).2.1
      rw [if_pos hutxo]
      refine ⟨p.hash, rest, heap₁, rfl, hheap₁, h.candidate _ (mem_append_right _ hpleft),
        by rw [IsValid, hstatus, hutxo], fun u hu huv => ?_, fun x hx => h.mem x (mem_append_right _ (hsub x hx)), hnodup,
        fun y hy => lt_of_le_of_ne (hmax y (hsub y (by simp [hy]))) fun heq => ?_, fun x hx y hy hne hanc => ?_⟩
      · rcases h.covers hs hu with hin | ⟨y, hy, hlt⟩
        · rcases mem_append.mp hin with hin | hin
          · exact absurd huv (h.invalid u hin)
          · exact hmax u hin
        · exact hlt.le.trans (hmax y hy)
      · exact (nodup_cons.mp hnodup).1 (key_injective heq ▸ hy)
      -- A block above another one would have left the heap.
      have hyl := hsub y hy
      have hdone := h.future x (mem_append_right _ (hsub x hx)) y
        (h.body y (mem_append_right _ hyl)) ⟨hanc, hne⟩
      exact (nodup_append.mp h.nodup).2.2 y hdone y hyl rfl
    · obtain ⟨parents, hparents, hnodup, hedge⟩ := hs.parents_eq hpdag
      obtain ⟨heap₂, new, hpush, hheap₂, hnew, hmem⟩ := pushParents_spec hs hheap₁ hnodup
        fun q hq => hs.validated.parent_mem ((hedge q).mp hq)
      have hinvalid : ¬ IsValid s p.hash := by
        unfold IsValid
        rw [hstatus]
        simpa using hutxo
      have hstep := h.step hs hperm hmax hinvalid hnew fun q => by rw [hmem, hedge]
      rw [if_neg hutxo]
      simp only [lookupOrFail_eq hparents, Except.mapError, hpush]
      exact ih hstep hheap₂ (by simp only [length_cons]; omega)

end Kaspad.ConsensusState
