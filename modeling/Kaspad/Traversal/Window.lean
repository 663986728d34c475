import Kaspad.Lib.Cache
import Kaspad.Traversal.BlockHeap

/-! # Block windows

`BlockWindow` of `domain/consensus/processes/dagtraversalmanager/window.go` and the store of heap slices
that it reads and stages. With whatever the store holds after a run, the window of a block is the
greatest blocks of its past.
-/

namespace Kaspad.Traversal
open Lib Ghostdag List Set

def virtualBlockHash : DomainHash := 2 ^ 256 - 1

/-! ## The store of heap slices -/

structure WindowHeapSliceStore where
  toAdd : GoMap (DomainHash × ℕ) SizedUpBlockHeap
  cache : Cache (DomainHash × ℕ) SizedUpBlockHeap

namespace WindowHeapSliceStore

def get (store : WindowHeapSliceStore) (blockHash : DomainHash) (windowSize : ℕ) : Option SizedUpBlockHeap :=
  match store.toAdd.lookup (blockHash, windowSize) with
  | some heapSlice => some heapSlice
  | none => store.cache.get (blockHash, windowSize)

def stage (store : WindowHeapSliceStore) (blockHash : DomainHash) (windowSize : ℕ)
    (heapSlice : SizedUpBlockHeap) : WindowHeapSliceStore :=
  { store with toAdd := store.toAdd.insert (blockHash, windowSize) heapSlice }

def commit (victim : GoMap (DomainHash × ℕ) SizedUpBlockHeap → DomainHash × ℕ)
    (order : List (DomainHash × ℕ)) (store : WindowHeapSliceStore) : WindowHeapSliceStore :=
  ⟨∅, order.foldl (fun cache key =>
    match store.toAdd.lookup key with
    | some heapSlice => cache.add victim key heapSlice
    | none => cache) store.cache⟩

def discard (store : WindowHeapSliceStore) : WindowHeapSliceStore := { store with toAdd := ∅ }

end WindowHeapSliceStore

/-! ## The windows -/

/-- `daaWindow` is the window that came with a trusted block (`DAAWindowBlock` for each index), empty for
other blocks. -/
structure WindowManager where
  genesisHash : DomainHash
  daaWindow : DomainHash → List BlockGHOSTDAGDataHashPair

variable (m : WindowManager) (st : Stores)

/-- The loops of `tryPushMergeSet` over one color, which go on while blocks are added. -/
def pushWhileAdded : List DomainHash → SizedUpBlockHeap → Except WindowError SizedUpBlockHeap
  | [], windowHeap => pure windowHeap
  | blockHash :: blockHashes, windowHeap => do
    let (windowHeap, added) ← windowHeap.tryPush st blockHash
    if added then pushWhileAdded blockHashes windowHeap else pure windowHeap

def tryPushMergeSet (windowHeap : SizedUpBlockHeap) (selectedParent : DomainHash)
    (currentGHOSTDAGData selectedParentGHOSTDAGData : BlockGHOSTDAGData) :
    Except WindowError (SizedUpBlockHeap × Bool) := do
  let (windowHeap, added) ← windowHeap.tryPushWithGHOSTDAGData selectedParent selectedParentGHOSTDAGData
  if !added then pure (windowHeap, true)
  else
    match currentGHOSTDAGData.mergeSetBlues with
    | [] => throw .indexOutOfRange
    | _ :: mergeSetBlues =>
      let windowHeap ← pushWhileAdded st mergeSetBlues.reverse windowHeap
      let windowHeap ← pushWhileAdded st currentGHOSTDAGData.mergeSetReds.reverse windowHeap
      pure (windowHeap, false)

def pushTrusted : List BlockGHOSTDAGDataHashPair → SizedUpBlockHeap → Except WindowError SizedUpBlockHeap
  | [], windowHeap => pure windowHeap
  | daaBlock :: daaBlocks, windowHeap => do
    let (windowHeap, _) ← windowHeap.tryPushWithGHOSTDAGData daaBlock.hash daaBlock.ghostdagData
    pushTrusted daaBlocks windowHeap

def walkChain : ℕ → DomainHash → BlockGHOSTDAGData → SizedUpBlockHeap → Except WindowError SizedUpBlockHeap
  | 0, _, _, _ => throw .running
  | n + 1, current, currentGHOSTDAGData, windowHeap =>
    if currentGHOSTDAGData.selectedParent = some m.genesisHash then pure windowHeap
    else if m.daaWindow current ≠ [] then pushTrusted (m.daaWindow current) windowHeap
    else
      match currentGHOSTDAGData.selectedParent with
      | none => throw (.ghostdag .nilHash)
      | some selectedParent => do
        let selectedParentGHOSTDAGData ← (st.get (some selectedParent) false).mapError .ghostdag
        let (windowHeap, done) ←
          tryPushMergeSet st windowHeap selectedParent currentGHOSTDAGData selectedParentGHOSTDAGData
        if done then pure windowHeap
        else walkChain n selectedParent selectedParentGHOSTDAGData windowHeap

def selectedParentSlice (store : WindowHeapSliceStore) (highHash : DomainHash)
    (currentGHOSTDAGData : BlockGHOSTDAGData) (windowSize : ℕ) : Option (DomainHash × SizedUpBlockHeap) :=
  if m.daaWindow highHash ≠ [] then none
  else do
    let selectedParent ← currentGHOSTDAGData.selectedParent
    let windowHeapSlice ← store.get selectedParent windowSize
    pure (selectedParent, windowHeapSlice)

def calculateBlockWindowHeap (rounds : ℕ) (store : WindowHeapSliceStore) (highHash : DomainHash)
    (windowSize : ℕ) : Except WindowError SizedUpBlockHeap :=
  let windowHeap := newSizedUpHeap windowSize
  if highHash = m.genesisHash then pure windowHeap
  else if windowSize = 0 then pure windowHeap
  else do
    let currentGHOSTDAGData ← (st.get (some highHash) false).mapError .ghostdag
    match selectedParentSlice m store highHash currentGHOSTDAGData windowSize with
    | some (selectedParent, windowHeap) =>
      if selectedParent ≠ m.genesisHash then
        let selectedParentGHOSTDAGData ← (st.get (some selectedParent) false).mapError .ghostdag
        let (windowHeap, _) ←
          tryPushMergeSet st windowHeap selectedParent currentGHOSTDAGData selectedParentGHOSTDAGData
        pure windowHeap
      else pure windowHeap
    | none => walkChain m st rounds highHash currentGHOSTDAGData windowHeap

def blockWindowHeap (rounds : ℕ) (store : WindowHeapSliceStore) (highHash : DomainHash) (windowSize : ℕ) :
    Except WindowError (SizedUpBlockHeap × WindowHeapSliceStore) :=
  match store.get highHash windowSize with
  | some windowHeapSlice => pure (windowHeapSlice, store)
  | none => do
    let heap ← calculateBlockWindowHeap m st rounds store highHash windowSize
    if highHash ≠ virtualBlockHash then pure (heap, store.stage highHash windowSize heap)
    else pure (heap, store)

def blockWindow (rounds : ℕ) (store : WindowHeapSliceStore) (highHash : DomainHash) (windowSize : ℕ) :
    Except WindowError (List DomainHash × WindowHeapSliceStore) := do
  let (windowHeap, store) ← blockWindowHeap m st rounds store highHash windowSize
  pure (windowHeap.hashes, store)

section
variable {st} {N : ℕ} {s t : Set DomainHash} {sbh : SizedUpBlockHeap}

theorem HeapOf.union_of_le (h : HeapOf st N s sbh) {x : DomainHash}
    (hrefused : sbh.hashes.length = N ∧ ∀ y ∈ sbh.hashes, st.key x < st.key y)
    (ht : ∀ y ∈ t, st.key y ≤ st.key x) : HeapOf st N (s ∪ t) sbh :=
  ⟨h.cap, h.heap, h.data, h.greatest.union_of_lt hrefused.1 fun y hy z hz => (ht y hy).trans_lt (hrefused.2 z hz)⟩

theorem pushWhileAdded_spec (hN : 0 < N) {l : List DomainHash} (h : HeapOf st N s sbh)
    (hdata : ∀ x ∈ l, ∃ d, st.data.lookup x = some d) (hnodup : l.Nodup) (hnew : ∀ x ∈ l, x ∉ s)
    (hsorted : l.Pairwise fun x y => st.key y ≤ st.key x) :
    ∃ sbh', pushWhileAdded st l sbh = .ok sbh' ∧ HeapOf st N (s ∪ {x | x ∈ l}) sbh' := by
  induction l generalizing s sbh with
  | nil => exact ⟨sbh, rfl, by simpa using h⟩
  | cons x l ih =>
    obtain ⟨d, hd⟩ := hdata x (by simp)
    obtain ⟨hxl, hnodup'⟩ := nodup_cons.mp hnodup
    obtain ⟨hx, hsorted'⟩ := pairwise_cons.mp hsorted
    obtain ⟨sbh', added, hpush, hheap, hrefused⟩ := h.tryPush hN (hnew x (by simp)) hd
    have hset : s ∪ {y | y ∈ x :: l} = insert x s ∪ {y | y ∈ l} := by
      ext y
      simp only [mem_cons, mem_union, mem_ofPred_eq, mem_insert_iff]
      tauto
    have hstep : sbh.tryPush st x = .ok (sbh', added) := by
      simp only [SizedUpBlockHeap.tryPush, get_eq hd, Except.mapError, ok_bind]
      exact hpush
    simp only [pushWhileAdded, hstep, ok_bind]
    cases added with
    | false =>
      exact ⟨sbh', rfl, hset ▸ hheap.union_of_le (hrefused rfl) hx⟩
    | true =>
      obtain ⟨sbh'', hrest, hheap'⟩ := ih hheap (fun y hy => hdata y (by simp [hy])) hnodup' (by
          intro y hy
          rw [mem_insert_iff, not_or]
          exact ⟨fun heq => hxl (heq ▸ hy), hnew y (by simp [hy])⟩) hsorted'
      exact ⟨sbh'', hrest, hset ▸ hheap'⟩

end

section
variable {st} {N : ℕ} {s : Set DomainHash} {sbh : SizedUpBlockHeap} {g : Ghostdag.Manager}
  {dag : List Block} (hdag : IsDAG g dag) (hpos : PositiveWork dag) (hst : Recorded g dag dag st)
  {b : Block} (hb : b ∈ dag) {d dsp : BlockGHOSTDAGData} {sp : DomainHash}

include hdag hpos hst hb

theorem tryPushMergeSet_spec (hN : 0 < N) (hmerge : MergeData dag st b d sp)
    (hsp : st.data.lookup sp = some dsp) (h : HeapOf st N s sbh) (hnew : ∀ x ∈ mergeSet d, x ∉ s) :
    ∃ sbh' done, tryPushMergeSet st sbh sp d dsp = .ok (sbh', done) ∧ HeapOf st N (s ∪ {x | x ∈ mergeSet d}) sbh' ∧
      (done = true → ∀ t : Set DomainHash, (∀ y ∈ t, st.key y ≤ st.key sp) →
        HeapOf st N (s ∪ {x | x ∈ mergeSet d} ∪ t) sbh') := by
  have hsplit := hmerge.mergeSet_eq
  obtain ⟨sbh₁, added, hpush, hheap, hrefused⟩ := h.tryPush hN (hnew sp (by rw [hsplit]; simp)) hsp
  have hkeys : ∀ y ∈ mergeSet d, st.key y ≤ st.key sp := fun y hy => hmerge.key_le hdag hst hpos hb hy
  simp only [tryPushMergeSet, hpush, bind, Except.bind]
  cases added with
  | false =>
    have hall : ∀ t : Set DomainHash, (∀ y ∈ t, st.key y ≤ st.key sp) →
        HeapOf st N (s ∪ {x | x ∈ mergeSet d} ∪ t) sbh₁ := by
      intro t ht
      have hunion := hheap.union_of_le (t := {x | x ∈ mergeSet d} ∪ t) (hrefused rfl) (by
        rintro y (hy | hy)
        · exact hkeys y hy
        · exact ht y hy)
      have hset : s ∪ {x | x ∈ mergeSet d} ∪ t = insert sp s ∪ ({x | x ∈ mergeSet d} ∪ t) := by
        ext y
        simp only [hsplit, mem_cons, mem_union, mem_ofPred_eq, mem_insert_iff]
        tauto
      exact hset ▸ hunion
    refine ⟨sbh₁, true, rfl, ?_, fun _ => hall⟩
    simpa using hall ∅ (by simp)
  | true =>
    have hmem : ∀ x ∈ d.mergeSetBlues.tail ++ d.mergeSetReds, ∃ d, st.data.lookup x = some d := by
      intro x hx
      obtain ⟨⟨p, hp, -, hxp⟩, -⟩ := (hmerge.merged x).mp hx
      exact hst.knows.data x (hdag.ancestor_mem hxp (hdag.parent_mem ⟨b, hb, rfl, hp⟩))
    obtain ⟨hblues, hreds, hdisjoint⟩ := nodup_append.mp hmerge.nodup
    have hfresh : ∀ x ∈ d.mergeSetBlues.tail ++ d.mergeSetReds, x ∉ insert sp s := by
      intro x hx hin
      rcases hin with rfl | hin
      · exact ((hmerge.merged x).mp hx).2 .refl
      · exact hnew x (by rw [hsplit]; exact mem_cons_of_mem _ hx) hin
    obtain ⟨sbh₂, hpush₂, hheap₂⟩ := pushWhileAdded_spec hN (l := d.mergeSetBlues.tail.reverse) hheap
      (fun x hx => hmem x (by simp_all)) (nodup_reverse.mpr hblues)
      (fun x hx => hfresh x (by simp_all)) (pairwise_reverse.mpr hmerge.sortedBlues)
    obtain ⟨sbh₃, hpush₃, hheap₃⟩ := pushWhileAdded_spec hN (l := d.mergeSetReds.reverse) hheap₂
      (fun x hx => hmem x (by simp_all)) (nodup_reverse.mpr hreds)
      (fun x hx => by
        rintro (hin | hin)
        · exact hfresh x (by simp_all) hin
        · exact hdisjoint x (by simpa using hin) x (by simpa using hx) rfl)
      (pairwise_reverse.mpr hmerge.sortedReds)
    refine ⟨sbh₃, false, ?_, ?_, by simp⟩
    · rw [hmerge.first]
      simp only [Bool.not_true, Bool.false_eq_true, if_false, hpush₂, hpush₃]
      rfl
    convert hheap₃ using 1
    ext y
    simp only [hsplit, mem_cons, mem_append, mem_reverse, mem_union, mem_ofPred_eq,
      mem_insert_iff]
    tauto

omit hpos hst hb

/-! ## The past of a block -/

omit hdag in
def windowBlocks (g : Ghostdag.Manager) (dag : List Block) (h : DomainHash) : Set DomainHash :=
  {x | InPast dag x h ∧ x ≠ g.genesisHash}

theorem windowBlocks_genesis : windowBlocks g dag g.genesisHash = ∅ := by
  refine eq_empty_of_forall_notMem fun x ⟨hpast, hne⟩ => hne ?_
  obtain ⟨bits, rest, heq, -⟩ := hdag.genesis
  have hmem : g.genesisHash ∈ hashes dag := mem_hashes (b := ⟨g.genesisHash, [], bits⟩) (by simp [heq])
  exact hdag.antisymm hpast.1 (hdag.genesis_ancestor (hdag.ancestor_mem hpast.1 hmem))

include hb in
theorem windowBlocks_above_genesis (hmerge : MergeData dag st b d g.genesisHash) : windowBlocks g dag b.hash = ∅ := by
  refine eq_empty_of_forall_notMem fun x ⟨hpast, hne⟩ => ?_
  rcases (hmerge.inPast_iff hdag.toTopological hb).mp hpast with hx | hx
  · rw [hmerge.mergeSet_eq] at hx
    obtain ⟨⟨p, hp, hpg, -⟩, -⟩ := (hmerge.merged x).mp ((mem_cons.mp hx).resolve_left hne)
    exact hdag.antichain b hb _ hmerge.mem p hp (Ne.symm hpg)
      (hdag.genesis_ancestor (hdag.parent_mem ⟨b, hb, rfl, hp⟩))
  · have hin : x ∈ windowBlocks g dag g.genesisHash := ⟨hx, hne⟩
    rw [windowBlocks_genesis hdag] at hin
    exact hin

include hb in
theorem windowBlocks_eq (hmerge : MergeData dag st b d sp) (hsp : sp ≠ g.genesisHash) :
    windowBlocks g dag b.hash = windowBlocks g dag sp ∪ {x | x ∈ mergeSet d} := by
  have hspm := hdag.parent_mem ⟨b, hb, rfl, hmerge.mem⟩
  ext x
  simp only [windowBlocks, mem_union, mem_ofPred_eq, hmerge.inPast_iff hdag.toTopological hb]
  constructor
  · rintro ⟨hx | hx, hne⟩
    · exact .inr hx
    · exact .inl ⟨hx, hne⟩
  rintro (⟨hx, hne⟩ | hx)
  · exact ⟨.inr hx, hne⟩
  refine ⟨.inl hx, ?_⟩
  rintro rfl
  exact hmerge.not_inPast hx ⟨hdag.genesis_ancestor hspm, hsp.symm⟩

/-! ## The two ways to a window -/

variable {m} (hgenesis : m.genesisHash = g.genesisHash) (huntrusted : ∀ h, m.daaWindow h = [])
include hpos hst hb hgenesis huntrusted in
theorem walkChain_spec (hN : 0 < N) {n : ℕ} (hn : (hashes dag).idxOf b.hash < n)
    (hmerge : MergeData dag st b d sp) (h : HeapOf st N s sbh) (hnew : ∀ x ∈ windowBlocks g dag b.hash, x ∉ s) :
    ∃ sbh', walkChain m st n b.hash d sbh = .ok sbh' ∧ HeapOf st N (s ∪ windowBlocks g dag b.hash) sbh' := by
  induction n generalizing b d sp s sbh with
  | zero => omega
  | succ n ih =>
    unfold walkChain
    rw [hmerge.selectedParent, hgenesis]
    by_cases hsp : sp = g.genesisHash
    · subst hsp
      rw [if_pos rfl, windowBlocks_above_genesis hdag hb hmerge, union_empty]
      exact ⟨sbh, rfl, h⟩
    have hedge : IsParent dag sp b.hash := ⟨b, hb, rfl, hmerge.mem⟩
    have hspm := hdag.parent_mem hedge
    obtain ⟨dsp, hdsp⟩ := hst.knows.data sp hspm
    have hblocks := windowBlocks_eq hdag hb hmerge hsp
    obtain ⟨sbh₁, done, hpush, hheap, hdone⟩ := tryPushMergeSet_spec hdag hpos hst hb hN hmerge hdsp h
      fun x hx => hnew x (by rw [hblocks]; exact .inr hx)
    have hset : s ∪ windowBlocks g dag b.hash = s ∪ {x | x ∈ mergeSet d} ∪ windowBlocks g dag sp := by
      rw [hblocks, union_assoc, union_comm {x | x ∈ mergeSet d}]
    simp only [Option.some.injEq, hsp, if_false, huntrusted, ne_eq, not_true_eq_false, get_eq hdsp,
      Except.mapError, ok_bind, hpush]
    cases done with
    | true =>
      refine ⟨sbh₁, rfl, hset ▸ hdone rfl _ fun y hy => ?_⟩
      exact (hst.key_lt hdag hpos hy.1 hspm).le
    | false =>
      obtain ⟨b', hb', rfl, sp', hmerge'⟩ := hst.mergeData_of hdag hdsp hsp
      have hlt := hdag.rank_lt _ _ hedge
      obtain ⟨sbh₂, hwalk, hheap'⟩ := ih hb' (by omega) hmerge' hheap (by
        rintro x hx (hxs | hxm)
        · exact hnew x (by rw [hblocks]; exact .inl hx) hxs
        · exact hmerge.not_inPast hxm hx.1)
      exact ⟨sbh₂, hwalk, hset ▸ hheap'⟩

def SliceFor (g : Ghostdag.Manager) (dag : List Block) (st : Stores) (key : DomainHash × ℕ)
    (slice : SizedUpBlockHeap) : Prop :=
  key.1 ∈ hashes dag ∧ key.1 ≠ virtualBlockHash ∧ HeapOf st key.2 (windowBlocks g dag key.1) slice

variable {store : WindowHeapSliceStore}
  (hstore : ∀ h N slice, store.get h N = some slice → SliceFor g dag st (h, N) slice)

include hpos hst hgenesis huntrusted hstore

variable {rounds : ℕ} {high : DomainHash}

/-- The heap is that of the window, with or without a window of the selected parent in the store. -/
theorem calculateBlockWindowHeap_spec (hrounds : dag.length < rounds) (hhigh : high ∈ hashes dag) (N : ℕ) :
    ∃ sbh, calculateBlockWindowHeap m st rounds store high N = .ok sbh ∧
      HeapOf st N (windowBlocks g dag high) sbh := by
  unfold calculateBlockWindowHeap
  simp only [hgenesis]
  by_cases hg : high = g.genesisHash
  · subst hg
    rw [if_pos rfl, windowBlocks_genesis hdag]
    exact ⟨_, rfl, heapOf_new st N⟩
  rw [if_neg hg]
  rcases Nat.eq_zero_or_pos N with rfl | hN
  · rw [if_pos rfl]
    refine ⟨_, rfl, rfl, (heapOf_new st 0).heap, (heapOf_new st 0).data, nodup_nil, ?_, le_rfl, ?_⟩
    · simp [newSizedUpHeap, SizedUpBlockHeap.hashes]
    · simp [newSizedUpHeap, SizedUpBlockHeap.hashes]
  rw [if_neg hN.ne']
  obtain ⟨d, hd⟩ := hst.knows.data high hhigh
  obtain ⟨b, hb, rfl, sp, hmerge⟩ := hst.mergeData_of hdag hd hg
  have hslice : selectedParentSlice m store b.hash d N = (store.get sp N).map fun slice => (sp, slice) := by
    simp only [selectedParentSlice, huntrusted, hmerge.selectedParent, ne_eq, not_true_eq_false, if_false,
      Option.bind_eq_bind, Option.bind_some]
    cases store.get sp N <;> rfl
  simp only [get_eq hd, Except.mapError, bind, Except.bind, hslice]
  cases hget : store.get sp N with
  | some slice =>
    obtain ⟨hspm, -, hheap⟩ := hstore sp N slice hget
    simp only [Option.map_some]
    by_cases hsp : sp = g.genesisHash
    · subst hsp
      rw [if_neg (by simp), windowBlocks_above_genesis hdag hb hmerge]
      simp only [windowBlocks_genesis hdag] at hheap
      exact ⟨slice, rfl, hheap⟩
    rw [if_pos hsp]
    obtain ⟨dsp, hdsp⟩ := hst.knows.data sp hspm
    obtain ⟨sbh, done, hpush, hheap', -⟩ := tryPushMergeSet_spec hdag hpos hst hb hN hmerge hdsp hheap
      fun x hx hpast => hmerge.not_inPast hx hpast.1
    rw [windowBlocks_eq hdag hb hmerge hsp]
    simp only [get_eq hdsp, hpush]
    exact ⟨sbh, rfl, hheap'⟩
  | none =>
    have hlt := (idxOf_lt_length_of_mem hhigh).trans (by simpa [hashes] using hrounds)
    obtain ⟨sbh, hwalk, hheap⟩ := walkChain_spec hdag hpos hst hb hgenesis huntrusted hN hlt hmerge
      (heapOf_new st N) (by simp)
    rw [empty_union] at hheap
    exact ⟨sbh, hwalk, hheap⟩

theorem blockWindowHeap_spec (hrounds : dag.length < rounds) (hhigh : high ∈ hashes dag) (N : ℕ) :
    ∃ sbh store', blockWindowHeap m st rounds store high N = .ok (sbh, store') ∧
      HeapOf st N (windowBlocks g dag high) sbh ∧
      (store' = store ∨ high ≠ virtualBlockHash ∧ store' = store.stage high N sbh) := by
  unfold blockWindowHeap
  cases hget : store.get high N with
  | some slice => exact ⟨slice, store, rfl, (hstore high N slice hget).2.2, .inl rfl⟩
  | none =>
    obtain ⟨sbh, hcalc, hheap⟩ := calculateBlockWindowHeap_spec hdag hpos hst hgenesis huntrusted hstore
      hrounds hhigh N
    simp only [hcalc, ok_bind]
    by_cases hvirtual : high = virtualBlockHash
    · rw [if_neg (not_not.mpr hvirtual)]
      exact ⟨sbh, store, rfl, hheap, .inl rfl⟩
    rw [if_pos hvirtual]
    exact ⟨sbh, _, rfl, hheap, .inr ⟨hvirtual, rfl⟩⟩

end

/-! ## Runs -/

structure View where
  dag : List Block
  st : Stores

/-- The blocks passed the header checks, and the virtual block is no block's parent. -/
structure View.Valid (g : Ghostdag.Manager) (powMax : ℕ) (v : View) : Prop where
  validated : Validated g powMax v.dag
  recorded : Recorded g v.dag v.dag v.st
  parents : ∀ b ∈ v.dag, virtualBlockHash ∉ b.parents

def View.Extends (v v' : View) : Prop :=
  ∀ b ∈ v.dag, b.hash ≠ virtualBlockHash → b ∈ v'.dag ∧ v'.st.data.lookup b.hash = v.st.data.lookup b.hash

structure World where
  committed : View
  staged : View
  store : WindowHeapSliceStore

/-- Blocks are added, the virtual block is replaced, `BlockWindow` is called, or the staging area is committed or
dropped. -/
inductive Step (m : WindowManager) (g : Ghostdag.Manager) (powMax : ℕ) : World → World → Prop
  | add {w : World} (view : View) :
      view.Valid g powMax → w.staged.Extends view → Step m g powMax w { w with staged := view }
  | window {w : World} (rounds : ℕ) (high : DomainHash) (N : ℕ) (window : List DomainHash)
      (store : WindowHeapSliceStore) : w.staged.dag.length < rounds → high ∈ hashes w.staged.dag →
      blockWindow m w.staged.st rounds w.store high N = .ok (window, store) →
      Step m g powMax w { w with store := store }
  | commit {w : World} (victim : GoMap (DomainHash × ℕ) SizedUpBlockHeap → DomainHash × ℕ)
      (order : List (DomainHash × ℕ)) :
      Step m g powMax w ⟨w.staged, w.staged, w.store.commit victim order⟩
  | discard {w : World} : Step m g powMax w ⟨w.committed, w.committed, w.store.discard⟩

def World.initial (v : View) (capacity : ℕ) : World := ⟨v, v, ∅, ∅, capacity⟩

section
variable {g : Ghostdag.Manager} {powMax : ℕ} {v v' v'' : View}

theorem View.Extends.refl (v : View) : v.Extends v := fun _ hb _ => ⟨hb, rfl⟩

theorem View.Extends.trans (h : v.Extends v') (h' : v'.Extends v'') : v.Extends v'' := by
  intro b hb hne
  obtain ⟨hb', heq⟩ := h b hb hne
  obtain ⟨hb'', heq'⟩ := h' b hb' hne
  exact ⟨hb'', heq'.trans heq⟩

variable (hv : v.Valid g powMax) (hv' : v'.Valid g powMax) (h : v.Extends v')
include hv hv' h

theorem View.Extends.ancestor_iff {a x : DomainHash} (hx : x ∈ hashes v.dag) (hne : x ≠ virtualBlockHash) :
    Ancestor v'.dag a x ↔ Ancestor v.dag a x := by
  constructor
  · intro hanc
    induction hanc with
    | refl => exact .refl
    | @tail p c _ hedge ih =>
      obtain ⟨b', hb', rfl, hp⟩ := hedge
      obtain ⟨b, hb, heq⟩ := mem_map.mp hx
      obtain rfl := hv'.validated.block_ext (h b hb (heq ▸ hne)).1 hb' heq
      have hedge : IsParent v.dag p b.hash := ⟨b, hb, rfl, hp⟩
      refine (ih (hv.validated.parent_mem hedge) ?_).tail hedge
      rintro rfl
      exact hv.parents b hb hp
  · intro hanc
    induction hanc with
    | refl => exact .refl
    | @tail p c _ hedge ih =>
      obtain ⟨b, hb, rfl, hp⟩ := hedge
      have hpv : p ≠ virtualBlockHash := by
        rintro rfl
        exact hv.parents b hb hp
      exact (ih (hv.validated.parent_mem ⟨b, hb, rfl, hp⟩) hpv).tail ⟨b, (h b hb hne).1, rfl, hp⟩

theorem View.Extends.sliceFor {key : DomainHash × ℕ} {slice : SizedUpBlockHeap}
    (hslice : SliceFor g v.dag v.st key slice) : SliceFor g v'.dag v'.st key slice := by
  obtain ⟨hmem, hne, hheap⟩ := hslice
  have hblocks : windowBlocks g v'.dag key.1 = windowBlocks g v.dag key.1 := by
    ext x
    simp only [windowBlocks, InPast, mem_ofPred_eq, h.ancestor_iff hv hv' hmem hne]
  have hlookup : ∀ x ∈ windowBlocks g v.dag key.1, v'.st.data.lookup x = v.st.data.lookup x := by
    intro x hx
    obtain ⟨b, hb, rfl⟩ := mem_map.mp (hv.validated.ancestor_mem hx.1.1 hmem)
    refine (h b hb fun heq => ?_).2
    -- The virtual block is in no past.
    obtain hrefl | ⟨c, ⟨b', hb', -, hp⟩, -⟩ := Relation.ReflTransGen.cases_head hx.1.1
    · exact hx.1.2 hrefl
    · exact hv.parents b' hb' (heq ▸ hp)
  have hkey : ∀ x ∈ windowBlocks g v.dag key.1, v'.st.key x = v.st.key x := by
    intro x hx
    simp only [Stores.key, Stores.work, hlookup x hx]
  obtain ⟨b, hb, heq⟩ := mem_map.mp hmem
  refine ⟨heq ▸ mem_hashes (h b hb (heq ▸ hne)).1, hne, hheap.cap, hheap.heap, fun p hp => ?_, ?_⟩
  · rw [hlookup p.hash (hheap.greatest.subset _ (mem_map_of_mem hp))]
    exact hheap.data p hp
  rw [hblocks]
  exact hheap.greatest.congr_key hkey

end

structure World.Sound (g : Ghostdag.Manager) (powMax : ℕ) (w : World) : Prop where
  committed : w.committed.Valid g powMax
  staged : w.staged.Valid g powMax
  extends_ : w.committed.Extends w.staged
  cache : ∀ key slice, w.store.cache.get key = some slice → SliceFor g w.committed.dag w.committed.st key slice
  toAdd : ∀ key slice, w.store.toAdd.lookup key = some slice → SliceFor g w.staged.dag w.staged.st key slice

section
variable {m} {g : Ghostdag.Manager} {powMax : ℕ} {w w' : World} {key : DomainHash × ℕ} {slice : SizedUpBlockHeap}

theorem World.Sound.cache_staged (h : w.Sound g powMax) (hget : w.store.cache.get key = some slice) :
    SliceFor g w.staged.dag w.staged.st key slice :=
  h.extends_.sliceFor h.committed h.staged (h.cache key slice hget)

theorem World.Sound.get (h : w.Sound g powMax) (high : DomainHash) (N : ℕ) (slice : SizedUpBlockHeap)
    (hget : w.store.get high N = some slice) : SliceFor g w.staged.dag w.staged.st (high, N) slice := by
  unfold WindowHeapSliceStore.get at hget
  cases hadd : w.store.toAdd.lookup (high, N) with
  | some slice' =>
    rw [hadd] at hget
    exact h.toAdd _ _ (hadd.trans hget)
  | none =>
    rw [hadd] at hget
    exact h.cache_staged hget

theorem World.sound_initial {v : View} (hv : v.Valid g powMax) (capacity : ℕ) :
    (World.initial v capacity).Sound g powMax :=
  ⟨hv, hv, .refl v, by simp [World.initial, Cache.get], by simp [World.initial]⟩

theorem commit_cache {victim : GoMap (DomainHash × ℕ) SizedUpBlockHeap → DomainHash × ℕ}
    {order : List (DomainHash × ℕ)} {store : WindowHeapSliceStore}
    (h : (store.commit victim order).cache.get key = some slice) :
    store.toAdd.lookup key = some slice ∨ store.cache.get key = some slice := by
  have hfold : ∀ (order : List (DomainHash × ℕ)) (cache : Cache (DomainHash × ℕ) SizedUpBlockHeap),
      (order.foldl (fun cache key =>
        match store.toAdd.lookup key with
        | some heapSlice => cache.add victim key heapSlice
        | none => cache) cache).get key = some slice →
      store.toAdd.lookup key = some slice ∨ cache.get key = some slice := by
    intro order
    induction order with
    | nil => exact fun cache hget => .inr hget
    | cons k order ih =>
      intro cache hget
      rcases ih _ hget with hadd | hget
      · exact .inl hadd
      cases hk : store.toAdd.lookup k with
      | none =>
        simp only [hk] at hget
        exact .inr hget
      | some heapSlice =>
        simp only [hk] at hget
        rcases Cache.get_add hget with ⟨rfl, rfl⟩ | ⟨-, hget⟩
        · exact .inl hk
        · exact .inr hget
  exact hfold order store.cache h

variable (hgenesis : m.genesisHash = g.genesisHash) (huntrusted : ∀ h, m.daaWindow h = [])
include hgenesis huntrusted

theorem World.Sound.blockWindow (h : w.Sound g powMax) {rounds : ℕ} (hrounds : w.staged.dag.length < rounds)
    {high : DomainHash} (hhigh : high ∈ hashes w.staged.dag) (N : ℕ) :
    ∃ sbh store', blockWindow m w.staged.st rounds w.store high N = .ok (sbh.hashes, store') ∧
      HeapOf w.staged.st N (windowBlocks g w.staged.dag high) sbh ∧
      (store' = w.store ∨ high ≠ virtualBlockHash ∧ store' = w.store.stage high N sbh) := by
  obtain ⟨sbh, store', hcall, hheap, hstore⟩ := blockWindowHeap_spec h.staged.validated.toIsDAG
    h.staged.validated.positiveWork h.staged.recorded hgenesis huntrusted h.get hrounds hhigh N
  refine ⟨sbh, store', ?_, hheap, hstore⟩
  simp only [Traversal.blockWindow, hcall, ok_bind]
  rfl

theorem Step.sound (hstep : Step m g powMax w w') (h : w.Sound g powMax) : w'.Sound g powMax := by
  cases hstep with
  | add view hview hext =>
    exact ⟨h.committed, hview, h.extends_.trans hext, h.cache,
      fun key slice hget => hext.sliceFor h.staged hview (h.toAdd key slice hget)⟩
  | window rounds high N window store hrounds hhigh hcall =>
    obtain ⟨sbh, store', hcall', hheap, hstore⟩ := h.blockWindow hgenesis huntrusted hrounds hhigh N
    cases Except.ok.inj (hcall.symm.trans hcall')
    rcases hstore with rfl | ⟨hne, rfl⟩
    · exact h
    refine ⟨h.committed, h.staged, h.extends_, h.cache, fun key slice hget => ?_⟩
    simp only [WindowHeapSliceStore.stage, GoMap.lookup_set] at hget
    split_ifs at hget with hkey
    · cases hget
      exact hkey ▸ ⟨hhigh, hne, hheap⟩
    · exact h.toAdd key slice hget
  | commit victim order =>
    refine ⟨h.staged, h.staged, .refl _, fun key slice hget => ?_, by simp [WindowHeapSliceStore.commit]⟩
    rcases commit_cache hget with hadd | hcache
    · exact h.toAdd key slice hadd
    · exact h.cache_staged hcache
  | discard =>
    exact ⟨h.committed, h.committed, .refl _, h.cache, by simp [WindowHeapSliceStore.discard]⟩

theorem sound_of_run {v : View} (hv : v.Valid g powMax) (capacity : ℕ)
    (hrun : Relation.ReflTransGen (Step m g powMax) (World.initial v capacity) w) : w.Sound g powMax := by
  induction hrun with
  | refl => exact World.sound_initial hv capacity
  | tail _ hstep ih => exact hstep.sound hgenesis huntrusted ih

end

/-- After every run the window of a block is the `N` greatest blocks of its past without genesis. -/
theorem blockWindow_greatest {g : Ghostdag.Manager} {powMax : ℕ} (hgenesis : m.genesisHash = g.genesisHash)
    (huntrusted : ∀ h, m.daaWindow h = []) {v : View} (hv : v.Valid g powMax) (capacity : ℕ) {w : World}
    (hrun : Relation.ReflTransGen (Step m g powMax) (World.initial v capacity) w) {rounds : ℕ}
    (hrounds : w.staged.dag.length < rounds) (high : DomainHash) (hhigh : high ∈ hashes w.staged.dag) (N : ℕ) :
    ∃ window store, blockWindow m w.staged.st rounds w.store high N = .ok (window, store) ∧ window.Nodup ∧
      window.length = min N {x | InPast w.staged.dag x high ∧ x ≠ m.genesisHash}.ncard ∧
      (∀ x ∈ window, InPast w.staged.dag x high ∧ x ≠ m.genesisHash) ∧
      (∀ y, InPast w.staged.dag y high → y ≠ m.genesisHash → y ∉ window →
        ∀ x ∈ window, w.staged.st.key y < w.staged.st.key x) ∧
      ∃ window' store', blockWindow m w.staged.st rounds ⟨∅, ∅, capacity⟩ high N = .ok (window', store') ∧
        window.Perm window' := by
  have hsound := sound_of_run hgenesis huntrusted hv capacity hrun
  obtain ⟨sbh, store, hcall, hheap, -⟩ := hsound.blockWindow hgenesis huntrusted hrounds hhigh N
  obtain ⟨sbh', store', hcall', hheap', -⟩ :=
    (World.sound_initial hsound.staged capacity).blockWindow hgenesis huntrusted hrounds hhigh N
  have hset : windowBlocks g w.staged.dag high = {x | InPast w.staged.dag x high ∧ x ≠ m.genesisHash} := by
    rw [hgenesis]
    rfl
  have hfinite : (windowBlocks g w.staged.dag high).Finite :=
    (finite_toSet (hashes w.staged.dag)).subset fun x hx =>
      hsound.staged.validated.ancestor_mem hx.1.1 hhigh
  have : Finite (windowBlocks g w.staged.dag high) := hfinite
  refine ⟨sbh.hashes, store, hcall, hheap.greatest.nodup, hset ▸ hheap.greatest.length_eq, fun x hx => ?_,
    fun y hy hne hyw => ?_, sbh'.hashes, store', hcall', hheap.greatest.unique hheap'.greatest⟩
  · have hin := hheap.greatest.subset x hx
    rwa [hset] at hin
  · exact (hheap.greatest.rest y (hset ▸ ⟨hy, hne⟩) hyw).2

theorem diamond_valid : View.Valid diamondManager (2 ^ 255 - 1) ⟨diamond, diamondStores⟩ :=
  ⟨⟨(isDAG_of_checkDAG diamond_checkDAG).1, by decide +kernel,
    by decide +kernel, by decide +kernel⟩, diamond_recorded, by decide +kernel⟩

theorem blockWindow_greatest_diamond : ∃ w, Relation.ReflTransGen (Step ⟨1, fun _ => []⟩ diamondManager (2 ^ 255 - 1))
        (World.initial ⟨diamond, diamondStores⟩ 10) w ∧ (w.store.get 3 2).isSome = true ∧
      ∃ window store, blockWindow ⟨1, fun _ => []⟩ w.staged.st 5 w.store 4 2 = .ok (window, store) ∧
        window.Nodup := by
  obtain ⟨window, store, hcall, hnodup, -⟩ := blockWindow_greatest ⟨1, fun _ => []⟩ (g := diamondManager) rfl
    (fun _ => rfl) diamond_valid 10 .refl (show diamond.length < 5 by decide) 3 (by decide) 2
  have hget : (store.get 3 2).isSome = true := by
    have hrun : ((blockWindow ⟨1, fun _ => []⟩ diamondStores 5 ⟨∅, ∅, 10⟩ 3 2).toOption.any
        fun r => (r.2.get 3 2).isSome) = true := by decide +kernel
    have hcall' : blockWindow ⟨1, fun _ => []⟩ diamondStores 5 ⟨∅, ∅, 10⟩ 3 2 = .ok (window, store) := hcall
    rw [hcall'] at hrun
    simpa [Except.toOption] using hrun
  have hstep : Relation.ReflTransGen (Step ⟨1, fun _ => []⟩ diamondManager (2 ^ 255 - 1))
      (World.initial ⟨diamond, diamondStores⟩ 10) ⟨⟨diamond, diamondStores⟩, ⟨diamond, diamondStores⟩, store⟩ :=
    .single (.window 5 3 2 window store (show diamond.length < 5 by decide) (show 3 ∈ hashes diamond by decide) hcall)
  obtain ⟨window', store', hcall', hnodup', -⟩ := blockWindow_greatest ⟨1, fun _ => []⟩ (g := diamondManager) rfl
    (fun _ => rfl) diamond_valid 10 hstep (show diamond.length < 5 by decide) 4
    (show 4 ∈ hashes diamond by decide) 2
  exact ⟨_, hstep, hget, window', store', hcall', hnodup'⟩

end Kaspad.Traversal
