import Kaspad.Ghostdag.Manager
import Kaspad.Lib.Dag

/-! # The merge set

A DAG of blocks in topological order, and what `findSelectedParent` and
`mergeSetWithoutSelectedParent` return on it: a parent of greatest blue work, and the blocks of the
past that are not in the past of that parent, each once, ordered by blue work.
-/

namespace Kaspad.Ghostdag
open Lib Lib.Dag List

/-! ## DAGs -/

def hashes (dag : List Block) : List DomainHash := dag.map Block.hash

def IsParent (dag : List Block) (p c : DomainHash) : Prop := ∃ b ∈ dag, b.hash = c ∧ p ∈ b.parents

def Ancestor (dag : List Block) : DomainHash → DomainHash → Prop :=
  Relation.ReflTransGen (IsParent dag)

structure Topological (dag : List Block) : Prop where
  nodup : (hashes dag).Nodup
  earlier : ∀ pre b post, dag = pre ++ b :: post → ∀ p ∈ b.parents, p ∈ hashes pre

/-- Genesis first, then blocks whose parents come before them and are not in the past of each other. -/
structure IsDAG (m : Manager) (dag : List Block) : Prop extends Topological dag where
  genesis : ∃ bits rest, dag = ⟨m.genesisHash, [], bits⟩ :: rest ∧ ∀ b ∈ rest, b.parents ≠ []
  parentsNodup : ∀ b ∈ dag, b.parents.Nodup
  antichain : ∀ b ∈ dag, ∀ p ∈ b.parents, ∀ q ∈ b.parents, p ≠ q → ¬ Ancestor dag p q
  notVirtual : virtualGenesisBlockHash ∉ hashes dag

/-- The reachability manager answers what the parents say. -/
def Manager.AncestorsCorrect (m : Manager) (dag : List Block) : Prop :=
  ∀ a ∈ hashes dag, ∀ b ∈ hashes dag, m.isAncestorOf a b = true ↔ Ancestor dag a b

section
variable {dag : List Block} (hdag : Topological dag) {a b : DomainHash}

theorem mem_hashes {b : Block} (hb : b ∈ dag) : b.hash ∈ hashes dag := mem_map_of_mem hb

theorem hashes_append {pre post : List Block} (heq : dag = pre ++ post) {h : DomainHash}
    (hh : h ∈ hashes pre) : h ∈ hashes dag := by
  rw [heq]
  unfold hashes at hh ⊢
  rw [map_append]
  exact mem_append_left _ hh

include hdag

theorem Topological.block_ext {b b' : Block} (hb : b ∈ dag) (hb' : b' ∈ dag) (h : b.hash = b'.hash) : b = b' :=
  inj_on_of_nodup_map hdag.nodup hb hb' h

theorem Topological.rank_lt (p c : DomainHash) (h : IsParent dag p c) :
    (hashes dag).idxOf p < (hashes dag).idxOf c := by
  obtain ⟨b, hb, rfl, hp⟩ := h
  obtain ⟨pre, post, heq⟩ := append_of_mem hb
  have hpre := hdag.earlier pre b post heq p hp
  have hnodup := hdag.nodup
  unfold hashes at hnodup hpre ⊢
  rw [heq, map_append, map_cons] at hnodup ⊢
  rw [idxOf_append_of_mem hpre, idxOf_append_of_notMem
    fun h => (nodup_append.mp hnodup).2.2 _ h _ (by simp) rfl, idxOf_cons_self]
  exact Nat.lt_of_lt_of_le (idxOf_lt_length_of_mem hpre) (Nat.le_add_right _ _)

theorem Topological.parent_mem (h : IsParent dag a b) : a ∈ hashes dag := by
  obtain ⟨b, hb, rfl, hp⟩ := h
  obtain ⟨pre, post, heq⟩ := append_of_mem hb
  exact hashes_append heq (hdag.earlier pre b post heq a hp)

theorem Topological.ancestor_mem (h : Ancestor dag a b) (hb : b ∈ hashes dag) : a ∈ hashes dag := by
  obtain rfl | ⟨c, hac, -⟩ := Relation.ReflTransGen.cases_head h
  · exact hb
  · exact hdag.parent_mem hac

theorem Topological.antisymm (h : Ancestor dag a b) (h' : Ancestor dag b a) : a = b :=
  reaches_antisymm hdag.rank_lt h h'

theorem Topological.isParent_iff {b : Block} (hb : b ∈ dag) : IsParent dag a b.hash ↔ a ∈ b.parents := by
  refine ⟨fun h => ?_, fun h => ⟨b, hb, rfl, h⟩⟩
  obtain ⟨b', hb', heq, ha⟩ := h
  rwa [← hdag.block_ext hb' hb heq]

theorem Topological.ancestor_iff {b : Block} (hb : b ∈ dag) :
    Ancestor dag a b.hash ↔ a = b.hash ∨ ∃ p ∈ b.parents, Ancestor dag a p := by
  constructor
  · intro h
    obtain heq | ⟨p, hap, hp⟩ := Relation.ReflTransGen.cases_tail h
    · exact .inl heq.symm
    · exact .inr ⟨p, (hdag.isParent_iff hb).mp hp, hap⟩
  · rintro (rfl | ⟨p, hp, hap⟩)
    · exact .refl
    · exact hap.tail ⟨b, hb, rfl, hp⟩

theorem Topological.ancestor_mem_pre {pre post : List Block} (heq : dag = pre ++ post)
    (h : Ancestor dag a b) (hb : b ∈ hashes pre) : a ∈ hashes pre := by
  induction h using Relation.ReflTransGen.head_induction_on with
  | refl => exact hb
  | head hparent _ ih =>
    obtain ⟨blk, hblk, hhash, hp⟩ := hparent
    obtain ⟨blk', hblk', hhash'⟩ := mem_map.mp ih
    obtain rfl := hdag.block_ext hblk (heq ▸ mem_append_left _ hblk') (hhash.trans hhash'.symm)
    obtain ⟨pre₁, pre₂, hpre⟩ := append_of_mem hblk'
    have hearlier := hdag.earlier pre₁ blk (pre₂ ++ post) (by rw [heq, hpre]; simp) _ hp
    exact hashes_append hpre hearlier

theorem Topological.ancestor_of_recursion {f : DomainHash → DomainHash → Bool}
    (hf : ∀ b ∈ dag, ∀ a ∈ hashes dag, f a b.hash = (decide (a = b.hash) || b.parents.any (f a)))
    (ha : a ∈ hashes dag) (hb : b ∈ hashes dag) : f a b = true ↔ Ancestor dag a b := by
  induction hn : (hashes dag).idxOf b using Nat.strong_induction_on generalizing b with
  | _ n ih =>
    obtain ⟨b, hb', rfl⟩ := mem_map.mp hb
    rw [hf b hb' a ha, hdag.ancestor_iff hb', Bool.or_eq_true, decide_eq_true_iff, any_eq_true]
    refine or_congr_right (exists_congr fun p => and_congr_right fun hp => ?_)
    have hedge : IsParent dag p b.hash := ⟨b, hb', rfl, hp⟩
    exact ih _ (hn ▸ hdag.rank_lt _ _ hedge) (hdag.parent_mem hedge) rfl

omit hdag in
theorem IsDAG.genesis_ancestor {m : Manager} (hdag : IsDAG m dag) (ha : a ∈ hashes dag) : Ancestor dag m.genesisHash a := by
  -- By the position in the DAG: another block has a parent, which stands before it.
  induction hn : (hashes dag).idxOf a using Nat.strong_induction_on generalizing a with
  | _ n ih =>
    obtain ⟨b, hb, rfl⟩ := mem_map.mp ha
    obtain ⟨bits, rest, heq, hrest⟩ := hdag.genesis
    have hb' := hb
    rw [heq] at hb'
    rcases mem_cons.mp hb' with rfl | hb'
    · exact .refl
    obtain ⟨p, hp⟩ := exists_mem_of_ne_nil _ (hrest b hb')
    have hedge : IsParent dag p b.hash := ⟨b, hb, rfl, hp⟩
    exact (ih _ (hn ▸ hdag.rank_lt _ _ hedge) (hdag.parent_mem hedge) rfl).tail hedge

end

/-! ## Comparing blocks -/

structure Stores.Knows (st : Stores) (pre : List Block) : Prop where
  parents : ∀ b ∈ pre, st.parents.lookup b.hash = some b.parents
  bits : ∀ b ∈ pre, st.bits.lookup b.hash = some b.bits
  data : ∀ h ∈ hashes pre, ∃ d, st.data.lookup h = some d

def Stores.work (st : Stores) (hash : DomainHash) : ℕ :=
  (st.data.lookup hash).elim 0 BlockGHOSTDAGData.blueWork

def Stores.key (st : Stores) (hash : DomainHash) : ℕ ×ₗ ℕ := toLex (st.work hash, hash)

section
variable {st : Stores} {a b : DomainHash} {da db : BlockGHOSTDAGData}

theorem isLess_iff : isLess a da b db = true ↔ toLex (da.blueWork, a) < toLex (db.blueWork, b) := by
  rw [Prod.Lex.toLex_lt_toLex]
  unfold isLess
  rcases lt_trichotomy da.blueWork db.blueWork with h | h | h
  · simp [h]
  · simp [h]
  · simp [h, h.not_gt, h.ne']

theorem isLess_eq_false : isLess a da b db = false ↔ toLex (db.blueWork, b) ≤ toLex (da.blueWork, a) := by
  rw [← Bool.not_eq_true, isLess_iff, not_lt]

theorem lookupOrFail_eq {V : Type} {store : GoMap DomainHash V} {v : V}
    (h : store.lookup a = some v) : lookupOrFail store a = .ok v := by
  unfold lookupOrFail
  rw [h]
  rfl

theorem get_eq (h : st.data.lookup a = some da) : st.get (some a) false = .ok da :=
  lookupOrFail_eq h

theorem key_eq (h : st.data.lookup a = some da) : st.key a = toLex (da.blueWork, a) := by
  simp [Stores.key, Stores.work, h]

theorem chooseSelectedParent_pair (ha : st.data.lookup a = some da) (hb : st.data.lookup b = some db) :
    chooseSelectedParent st a [b] = .ok (if st.key a < st.key b then b else a) := by
  have hself : isLess a da a da = false := isLess_eq_false.mpr le_rfl
  unfold chooseSelectedParent
  simp only [chooseSelectedParentLoop, get_eq ha, get_eq hb, ok_bind, hself, key_eq ha, key_eq hb,
    ← isLess_iff]
  split_ifs <;> rfl

theorem less_eq (ha : st.data.lookup a = some da) (hb : st.data.lookup b = some db) (hne : a ≠ b) :
    less st a b = .ok (decide (st.key a < st.key b)) := by
  unfold less
  rw [chooseSelectedParent_pair ha hb]
  by_cases hlt : st.key a < st.key b
  · simp [hlt, pure, Except.pure]
  · simp [hlt, pure, Except.pure, hne]

theorem findSelectedParent_some {ps : List DomainHash} (hdata : ∀ h ∈ a :: ps, ∃ d,
    st.data.lookup h = some d) (hnodup : (a :: ps).Nodup) :
    ∃ sp ∈ a :: ps, findSelectedParent st ps (some a) = .ok (some sp) ∧ ∀ p ∈ a :: ps, st.key p ≤ st.key sp := by
  induction ps generalizing a with
  | nil => exact ⟨a, by simp, rfl, by simp⟩
  | cons b ps ih =>
    obtain ⟨da, hda⟩ := hdata a (by simp)
    obtain ⟨db, hdb⟩ := hdata b (by simp)
    have hne : a ≠ b := by rintro rfl; simp at hnodup
    simp only [findSelectedParent, less_eq hda hdb hne, ok_bind]
    have hps := nodup_cons.mp (nodup_cons.mp hnodup).2
    by_cases hlt : st.key a < st.key b
    · obtain ⟨sp, hsp, hfind, hmax⟩ := ih (fun h hh => hdata h (by simp_all)) (nodup_cons.mpr hps)
      exact ⟨sp, mem_cons_of_mem _ hsp, by simpa [hlt] using hfind,
        forall_mem_cons.mpr ⟨hlt.le.trans (hmax b (by simp)), hmax⟩⟩
    have hsub : a :: ps ⊆ a :: b :: ps := cons_subset_cons _ (subset_cons_self _ _)
    obtain ⟨sp, hsp, hfind, hmax⟩ := ih (a := a) (fun h hh => hdata h (hsub hh))
      (nodup_cons.mpr ⟨fun h => (nodup_cons.mp hnodup).1 (by simp [h]), hps.2⟩)
    obtain ⟨ha, hps⟩ := forall_mem_cons.mp hmax
    exact ⟨sp, hsub hsp, by simpa [hlt] using hfind,
      forall_mem_cons.mpr ⟨ha, forall_mem_cons.mpr ⟨(not_lt.mp hlt).trans ha, hps⟩⟩⟩

end

/-! ## The worklist -/

/-- Below another parent, and not below the selected parent. -/
def Merged (dag : List Block) (selectedParent : DomainHash) (blockParents : List DomainHash)
    (x : DomainHash) : Prop :=
  (∃ p ∈ blockParents, p ≠ selectedParent ∧ Ancestor dag x p) ∧ ¬ Ancestor dag x selectedParent

section
variable {m : Manager} {dag : List Block} (hdag : IsDAG m dag) (hcorrect : m.AncestorsCorrect dag)
  {sp : DomainHash} (hsp : sp ∈ hashes dag)

include hcorrect hsp in
theorem visitParents_spec (parents : List DomainHash) (hparents : ∀ p ∈ parents, p ∈ hashes dag)
    (s : MergeSetState) (hslice : s.mergeSetSlice.Nodup) (hpast : ∀ x ∈ s.selectedParentPast, Ancestor dag x sp) :
    ∃ new past, visitParents m sp parents s =
        ⟨s.mergeSetSlice ++ new, past, s.queue ++ new⟩ ∧ (s.mergeSetSlice ++ new).Nodup ∧
      (∀ x ∈ past, Ancestor dag x sp) ∧ (∀ x ∈ new, x ∈ parents ∧ ¬ Ancestor dag x sp) ∧
      ∀ p ∈ parents, p ∈ s.mergeSetSlice ++ new ∨ Ancestor dag p sp := by
  induction parents generalizing s with
  | nil => exact ⟨[], s.selectedParentPast, by simp [visitParents], by simpa using hslice, hpast, by simp,
      by simp⟩
  | cons p parents ih =>
    have hp := hcorrect p (hparents p (by simp)) sp hsp
    have hrest : ∀ q ∈ parents, q ∈ hashes dag := fun q hq => hparents q (by simp [hq])
    -- Only a parent that is new and not below the selected parent changes more than the known past.
    obtain ⟨known, hknown, hp', heq'⟩ | ⟨hin, hanc, heq'⟩ :
        (∃ known, (∀ x ∈ known, Ancestor dag x sp) ∧ (p ∈ s.mergeSetSlice ∨ Ancestor dag p sp) ∧
          visitParents m sp (p :: parents) s = visitParents m sp parents { s with selectedParentPast := known }) ∨
        p ∉ s.mergeSetSlice ∧ ¬ Ancestor dag p sp ∧ visitParents m sp (p :: parents) s = visitParents m sp parents
          { s with mergeSetSlice := s.mergeSetSlice ++ [p], queue := s.queue ++ [p] } := by
      rw [visitParents]
      split_ifs with hin hold hanc
      · exact .inl ⟨_, hpast, .inl hin, rfl⟩
      · exact .inl ⟨_, hpast, .inr (hpast p hold), rfl⟩
      · exact .inl ⟨_, forall_mem_cons.mpr ⟨hp.mp hanc, hpast⟩, .inr (hp.mp hanc), rfl⟩
      · exact .inr ⟨hin, fun h => hanc (hp.mpr h), rfl⟩
    · obtain ⟨new, past, heq, hnodup, hpast', hnew, hall⟩ := ih hrest { s with selectedParentPast := known } hslice hknown
      refine ⟨new, past, heq'.trans heq, hnodup, hpast', fun x hx => ⟨by simp [hnew x hx], (hnew x hx).2⟩, ?_⟩
      exact forall_mem_cons.mpr ⟨hp'.imp_left (mem_append_left _), hall⟩
    obtain ⟨new, past, heq, hnodup, hpast', hnew, hall⟩ := ih hrest
      { s with mergeSetSlice := s.mergeSetSlice ++ [p], queue := s.queue ++ [p] }
      (by simpa using hslice.concat hin) hpast
    refine ⟨p :: new, past, by simpa [heq'] using heq, by simpa using hnodup, hpast', ?_, ?_⟩
    · exact forall_mem_cons.mpr ⟨⟨by simp, hanc⟩, fun x hx => ⟨by simp [hnew x hx], (hnew x hx).2⟩⟩
    · exact forall_mem_cons.mpr ⟨.inl (by simp), by simpa using hall⟩

structure Worklist (dag : List Block) (sp : DomainHash) (blockParents done queue : List DomainHash) :
    Prop where
  nodup : (done ++ queue).Nodup
  sound : ∀ x ∈ done ++ queue, Merged dag sp blockParents x
  closed : ∀ x ∈ done, ∀ p, IsParent dag p x → p ∈ done ++ queue ∨ Ancestor dag p sp
  start : ∀ p ∈ blockParents, p ≠ sp → p ∈ done ++ queue

theorem Worklist.complete {blockParents done : List DomainHash}
    (h : Worklist dag sp blockParents done []) {x : DomainHash} : x ∈ done ↔ Merged dag sp blockParents x := by
  refine ⟨fun hx => h.sound x (by simp [hx]), ?_⟩
  rintro ⟨⟨p, hp, hne, hxp⟩, hx⟩
  -- Up the path from `x`: no block on it is below the selected parent.
  induction hxp using Relation.ReflTransGen.head_induction_on with
  | refl => simpa using h.start p hp hne
  | head hparent _ ih =>
    have hy := ih fun hy => hx (.head hparent hy)
    simpa [hx] using h.closed _ hy _ hparent

include hdag hcorrect hsp in
/-- The walk ends, and lists what is merged once. -/
theorem mergeSetLoop_spec {st : Stores} {pre post : List Block} (heq : dag = pre ++ post)
    (hst : st.Knows pre) {blockParents : List DomainHash} (hparents : ∀ p ∈ blockParents, p ∈ hashes pre)
    (n : ℕ) (done queue past : List DomainHash) (hwork : Worklist dag sp blockParents done queue)
    (hpast : ∀ x ∈ past, Ancestor dag x sp) (hn : (hashes dag).length ≤ n + done.length) :
    ∃ l, mergeSetLoop m st sp n ⟨done ++ queue, past, queue⟩ = .ok l ∧ l.Nodup ∧
      ∀ x, x ∈ l ↔ Merged dag sp blockParents x := by
  have hmem : ∀ x, Merged dag sp blockParents x → x ∈ hashes pre := by
    rintro x ⟨⟨p, hp, -, hxp⟩, -⟩
    exact hdag.ancestor_mem_pre heq hxp (hparents p hp)
  have hsub : ∀ x ∈ hashes pre, x ∈ hashes dag := fun x hx => hashes_append heq hx
  induction n generalizing done queue past with
  | zero =>
    cases queue with
    | nil =>
      rw [append_nil]
      exact ⟨done, rfl, by simpa using hwork.nodup, fun x => hwork.complete⟩
    | cons current queue =>
      have hlen := (subperm_of_subset hwork.nodup fun x hx =>
        hsub x (hmem x (hwork.sound x hx))).length_le
      simp only [length_append, length_cons] at hlen
      omega
  | succ n ih =>
    cases queue with
    | nil =>
      rw [append_nil]
      exact ⟨done, rfl, by simpa using hwork.nodup, fun x => hwork.complete⟩
    | cons current queue =>
      have hcurrent := hwork.sound current (by simp)
      obtain ⟨b, hb, hhash⟩ := mem_map.mp (hmem current hcurrent)
      have hbdag := heq ▸ mem_append_left _ hb
      have hedge : ∀ p, IsParent dag p current ↔ p ∈ b.parents := fun p => hhash ▸ hdag.isParent_iff hbdag
      obtain ⟨new, past', hvisit, hnodup, hpast', hnew, hall⟩ := visitParents_spec hcorrect hsp
        b.parents (fun p hp => hdag.parent_mem ((hedge p).mpr hp))
        ⟨done ++ current :: queue, past, queue⟩ hwork.nodup hpast
      have hlookup := lookupOrFail_eq (hhash ▸ hst.parents b hb)
      unfold mergeSetLoop
      simp only [hlookup, ok_bind, hvisit]
      have happend : done ++ current :: queue ++ new = (done ++ [current]) ++ (queue ++ new) := by simp
      rw [happend]
      refine ih (done ++ [current]) (queue ++ new) past' ⟨?_, ?_, ?_, ?_⟩ hpast' (by simp; omega)
      · rw [← happend]
        exact hnodup
      · rw [← happend]
        intro x hx
        rcases mem_append.mp hx with hx | hx
        · exact hwork.sound x hx
        obtain ⟨⟨p, hp, hne, hcp⟩, -⟩ := hcurrent
        exact ⟨⟨p, hp, hne, .head ((hedge x).mpr (hnew x hx).1) hcp⟩, (hnew x hx).2⟩
      · rw [← happend]
        intro x hx p hp
        rcases mem_append.mp hx with hx | hx
        · exact (hwork.closed x hx p hp).imp_left fun h => mem_append_left _ h
        rw [mem_singleton.mp hx, hedge] at hp
        exact hall p hp
      · rw [← happend]
        exact fun p hp hne => mem_append_left _ (hwork.start p hp hne)

end

/-! ## The sorted merge set -/

theorem mapM_ok {α β ε : Type} {f : α → Except ε β} {g : α → β} {l : List α}
    (h : ∀ x ∈ l, f x = .ok (g x)) : l.mapM f = .ok (l.map g) := by
  induction l with
  | nil => rfl
  | cons x l ih =>
    rw [mapM_cons, h x (by simp), ih fun y hy => h y (by simp [hy])]
    rfl

theorem sortMergeSet_spec {st : Stores} {l : List DomainHash} (hdata : ∀ h ∈ l, ∃ d, st.data.lookup h = some d) :
    ∃ sorted, sortMergeSet st l = .ok sorted ∧ sorted.Perm l ∧ sorted.Pairwise fun a b => st.key a ≤ st.key b := by
  unfold sortMergeSet
  split_ifs with hlen
  · refine ⟨l, rfl, .refl _, ?_⟩
    rcases l with - | ⟨x, - | ⟨y, l⟩⟩
    · exact .nil
    · exact pairwise_singleton _ _
    · simp at hlen
  obtain ⟨data, hdata⟩ : ∃ data : DomainHash → BlockGHOSTDAGData, ∀ h ∈ l, st.data.lookup h = some (data h) := by
    refine ⟨fun h => (st.data.lookup h).getD ⟨0, 0, none, [], [], ∅⟩, fun h hh => ?_⟩
    obtain ⟨d, hd⟩ := hdata h hh
    simp [hd]
  have hmap : (l.mapM fun hash => do
      let data ← st.get (some hash) false
      pure (hash, data)) = .ok (l.map fun h => (h, data h)) := by
    refine mapM_ok fun h hh => ?_
    rw [get_eq (hdata h hh)]
    rfl
  set le := fun a b : DomainHash × BlockGHOSTDAGData => isLess b.1 b.2 a.1 a.2 = false with hle
  have : Std.Total le := ⟨fun a b => by
    simp only [hle, isLess_eq_false]
    exact le_total _ _⟩
  have : IsTrans _ le := ⟨fun a b c => by
    simp only [hle, isLess_eq_false]
    exact le_trans⟩
  refine ⟨((l.map fun h => (h, data h)).insertionSort le).map Prod.fst, ?_, ?_, ?_⟩
  · rw [hmap]
    rfl
  · have hperm := (perm_insertionSort le (l.map fun h => (h, data h))).map Prod.fst
    have hfst : (Prod.fst ∘ fun h => (h, data h)) = (id : DomainHash → DomainHash) := rfl
    rwa [map_map, hfst, map_id] at hperm
  refine pairwise_map.mpr ((pairwise_insertionSort le _).imp_of_mem ?_)
  intro a b ha hb hab
  have hkey : ∀ x ∈ (l.map fun h => (h, data h)).insertionSort le, st.key x.1 = toLex (x.2.blueWork, x.1) := by
    intro x hx
    obtain ⟨h, hh, rfl⟩ := mem_map.mp ((perm_insertionSort _ _).mem_iff.mp hx)
    exact key_eq (hdata h hh)
  rw [hkey a ha, hkey b hb]
  exact isLess_eq_false.mp hab

variable {m : Manager} {dag : List Block}

structure Joinable (dag pre : List Block) (blockParents : List DomainHash) : Prop where
  mem : ∀ p ∈ blockParents, p ∈ hashes pre
  nodup : blockParents.Nodup
  antichain : ∀ p ∈ blockParents, ∀ q ∈ blockParents, p ≠ q → ¬ Ancestor dag p q

theorem IsDAG.joinable (hdag : IsDAG m dag) {pre post : List Block} {b : Block}
    (heq : dag = pre ++ b :: post) : Joinable dag pre b.parents :=
  ⟨hdag.earlier pre b post heq, hdag.parentsNodup b (by simp [heq]), hdag.antichain b (by simp [heq])⟩

theorem mergeSetWithoutSelectedParent_spec (hdag : IsDAG m dag) (hcorrect : m.AncestorsCorrect dag)
    {st : Stores} {pre post : List Block} (heq : dag = pre ++ post) (hst : st.Knows pre)
    {blockParents : List DomainHash} (hjoin : Joinable dag pre blockParents) {sp : DomainHash}
    (hsp : sp ∈ blockParents) {n : ℕ} (hn : dag.length ≤ n) :
    ∃ l, mergeSetWithoutSelectedParent m n st sp blockParents = .ok l ∧ l.Nodup ∧
      (∀ x, x ∈ l ↔ Merged dag sp blockParents x) ∧ l.Pairwise fun a b => st.key a ≤ st.key b := by
  have hspdag := hashes_append heq (hjoin.mem sp hsp)
  have hwork : Worklist dag sp blockParents [] (blockParents.filter (· ≠ sp)) := by
    refine ⟨hjoin.nodup.filter _, fun x hx => ?_, by simp, fun p hp hne => by simp [hp, hne]⟩
    obtain ⟨hx, hne⟩ := mem_filter.mp hx
    have hne : x ≠ sp := by simpa using hne
    exact ⟨⟨x, hx, hne, .refl⟩, hjoin.antichain x hx sp hsp hne⟩
  obtain ⟨l, hloop, hnodup, hmem⟩ := mergeSetLoop_spec hdag hcorrect hspdag heq hst hjoin.mem n [] _ []
    hwork (by simp) (by simpa [hashes] using hn)
  have hdata : ∀ h ∈ l, ∃ d, st.data.lookup h = some d := by
    intro h hh
    obtain ⟨⟨p, hp, -, hxp⟩, -⟩ := (hmem h).mp hh
    exact hst.data h (hdag.ancestor_mem_pre heq hxp (hjoin.mem p hp))
  obtain ⟨sorted, hsort, hperm, hpairwise⟩ := sortMergeSet_spec hdata
  refine ⟨sorted, ?_, hperm.nodup_iff.mpr hnodup, fun x => hperm.mem_iff.trans (hmem x), hpairwise⟩
  unfold mergeSetWithoutSelectedParent
  rw [nil_append] at hloop
  simp only [hloop, ok_bind, hsort]

end Kaspad.Ghostdag
