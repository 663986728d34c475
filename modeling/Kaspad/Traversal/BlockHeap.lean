import Kaspad.Lib.BinaryHeap
import Kaspad.Lib.Greatest
import Kaspad.Ghostdag.Past

/-! # Block heaps

`sizedUpBlockHeap` of `domain/consensus/processes/dagtraversalmanager/block_heap.go`: a heap with the
block of least blue work and hash at the root and a fixed number of places. However blocks are pushed,
it holds the greatest of them.
-/

namespace Kaspad.Traversal
open Lib Lib.BinaryHeap Ghostdag List

structure BlockGHOSTDAGDataHashPair where
  hash : DomainHash
  ghostdagData : BlockGHOSTDAGData

def blockGHOSTDAGDataHashPairLess (left right : BlockGHOSTDAGDataHashPair) : Bool :=
  isLess left.hash left.ghostdagData right.hash right.ghostdagData

def downHeapLess (left right : BlockGHOSTDAGDataHashPair) : Bool := !blockGHOSTDAGDataHashPairLess left right

inductive WindowError
  | ghostdag (error : GhostdagError)
  /-- Where the source indexes an empty slice. -/
  | indexOutOfRange
  | running
  deriving DecidableEq, Repr

structure SizedUpBlockHeap where
  slice : Array BlockGHOSTDAGDataHashPair
  cap : ℕ

def newSizedUpHeap (cap : ℕ) : SizedUpBlockHeap := ⟨#[], cap⟩

variable (st : Stores)

def SizedUpBlockHeap.tryPushWithGHOSTDAGData (sbh : SizedUpBlockHeap) (blockHash : DomainHash)
    (ghostdagData : BlockGHOSTDAGData) : Except WindowError (SizedUpBlockHeap × Bool) :=
  let node := ⟨blockHash, ghostdagData⟩
  if sbh.slice.size = sbh.cap then
    match sbh.slice[0]? with
    | none => throw .indexOutOfRange
    | some min =>
      if blockGHOSTDAGDataHashPairLess node min then pure (sbh, false)
      else
        match pop blockGHOSTDAGDataHashPairLess sbh.slice with
        | none => throw .indexOutOfRange
        | some (_, slice) => pure ({ sbh with slice := push blockGHOSTDAGDataHashPairLess slice node }, true)
  else pure ({ sbh with slice := push blockGHOSTDAGDataHashPairLess sbh.slice node }, true)

def SizedUpBlockHeap.tryPush (sbh : SizedUpBlockHeap) (blockHash : DomainHash) :
    Except WindowError (SizedUpBlockHeap × Bool) := do
  let ghostdagData ← (st.get (some blockHash) false).mapError .ghostdag
  sbh.tryPushWithGHOSTDAGData blockHash ghostdagData

/-! ## What the heap holds -/

def pairKey (p : BlockGHOSTDAGDataHashPair) : ℕ ×ₗ ℕ := toLex (p.ghostdagData.blueWork, p.hash)

theorem pairLess_compares : Compares blockGHOSTDAGDataHashPairLess fun p q => pairKey p ≤ pairKey q where
  of_true _ _ h := (isLess_iff.mp h).le
  of_false _ _ h := isLess_eq_false.mp h
  trans _ _ _ := le_trans

def SizedUpBlockHeap.hashes (sbh : SizedUpBlockHeap) : List DomainHash := sbh.slice.toList.map (·.hash)

structure HeapOf (st : Stores) (N : ℕ) (s : Set DomainHash) (sbh : SizedUpBlockHeap) : Prop where
  cap : sbh.cap = N
  heap : IsHeap (fun p q => pairKey p ≤ pairKey q) sbh.slice
  data : ∀ p ∈ sbh.slice.toList, st.data.lookup p.hash = some p.ghostdagData
  greatest : Greatest st.key N s sbh.hashes

variable {st} {N : ℕ} {s : Set DomainHash} {sbh : SizedUpBlockHeap} {x : DomainHash} {d : BlockGHOSTDAGData}

theorem key_injective : Function.Injective st.key := by
  intro x y h
  exact (Prod.mk.inj (toLex.injective h)).2

theorem HeapOf.pairKey_eq (h : HeapOf st N s sbh) {p : BlockGHOSTDAGDataHashPair} (hp : p ∈ sbh.slice.toList) :
    pairKey p = st.key p.hash := (key_eq (h.data p hp)).symm

theorem heapOf_new (st : Stores) (N : ℕ) : HeapOf st N ∅ (newSizedUpHeap N) := by
  refine ⟨rfl, fun k _ hk => ?_, by simp [newSizedUpHeap], Greatest.nil N⟩
  simp [newSizedUpHeap] at hk

theorem HeapOf.push {slice : Array BlockGHOSTDAGDataHashPair} (heap : IsHeap (fun p q => pairKey p ≤ pairKey q) slice)
    (data : ∀ p ∈ slice.toList, st.data.lookup p.hash = some p.ghostdagData) (hd : st.data.lookup x = some d)
    (greatest : Greatest st.key N s (x :: slice.toList.map (·.hash))) :
    HeapOf st N s ⟨Lib.BinaryHeap.push blockGHOSTDAGDataHashPairLess slice ⟨x, d⟩, N⟩ := by
  obtain ⟨hheap, hperm⟩ := push_spec pairLess_compares heap ⟨x, d⟩
  refine ⟨rfl, hheap, fun p hp => ?_, ?_⟩
  · rcases mem_cons.mp (hperm.mem_iff.mp hp) with rfl | hp
    · exact hd
    · exact data p hp
  · exact greatest.perm (hperm.symm.map BlockGHOSTDAGDataHashPair.hash)

theorem HeapOf.tryPush (h : HeapOf st N s sbh) (hN : 0 < N) (hx : x ∉ s) (hd : st.data.lookup x = some d) :
    ∃ sbh' added, sbh.tryPushWithGHOSTDAGData x d = .ok (sbh', added) ∧ HeapOf st N (insert x s) sbh' ∧
      (added = false → sbh'.hashes.length = N ∧ ∀ y ∈ sbh'.hashes, st.key x < st.key y) := by
  have hlength : sbh.hashes.length = sbh.slice.size := by simp [SizedUpBlockHeap.hashes]
  have hle := h.greatest.length_le
  unfold SizedUpBlockHeap.tryPushWithGHOSTDAGData
  by_cases hfull : sbh.slice.size = sbh.cap
  · have hsize := hfull.trans h.cap
    obtain ⟨least, rest, hpop, hroot, hheap, hperm, hleast⟩ :=
      pop_spec pairLess_compares (fun _ => le_rfl) h.heap (by omega)
    have hmin : least ∈ sbh.slice.toList := hperm.mem_iff.mpr (by simp)
    rw [if_pos hfull, hroot]
    simp only
    by_cases hless : blockGHOSTDAGDataHashPairLess ⟨x, d⟩ least = true
    · rw [if_pos hless]
      have hlt : st.key x < pairKey least := by
        rw [key_eq hd]
        exact isLess_iff.mp hless
      have hbelow : ∀ y ∈ sbh.hashes, st.key x < st.key y := by
        intro y hy
        obtain ⟨p, hp, rfl⟩ := mem_map.mp hy
        rw [← h.pairKey_eq hp]
        exact hlt.trans_le (hleast p hp)
      refine ⟨sbh, false, rfl, ⟨h.cap, h.heap, h.data, ?_⟩, fun _ => ⟨by omega, hbelow⟩⟩
      have hunion := h.greatest.union_of_lt (t := {x}) (by omega) (by simpa using hbelow)
      rwa [Set.union_singleton] at hunion
    rw [if_neg hless, hpop]
    have hdata : ∀ p ∈ rest.toList, st.data.lookup p.hash = some p.ghostdagData :=
      fun p hp => h.data p (hperm.mem_iff.mpr (mem_cons_of_mem _ hp))
    have hle : pairKey least ≤ st.key x := by
      rw [key_eq hd]
      exact isLess_eq_false.mp (Bool.not_eq_true _ ▸ hless)
    have hold := h.greatest.perm (hperm.map BlockGHOSTDAGDataHashPair.hash)
    have hne : st.key least.hash ≠ st.key x := fun heq =>
      hx (key_injective heq ▸ hold.subset least.hash (by simp))
    have hnew := hold.replace key_injective hx (by
        have hlen := hperm.length_eq
        simp only [length_cons, length_map, Array.length_toList] at hlen ⊢
        omega)
      (fun y hy => by
        obtain ⟨p, hp, rfl⟩ := mem_map.mp hy
        rw [← h.pairKey_eq hmin, ← h.pairKey_eq (hperm.mem_iff.mpr (mem_cons_of_mem _ hp))]
        exact hleast p (hperm.mem_iff.mpr (mem_cons_of_mem _ hp)))
      (lt_of_le_of_ne (h.pairKey_eq hmin ▸ hle) hne)
    exact ⟨_, true, rfl, h.cap ▸ HeapOf.push hheap hdata hd (h.cap ▸ hnew), by simp⟩
  · rw [if_neg hfull]
    have hnew := h.greatest.insert_of_lt hx (by rw [h.cap] at hfull; omega)
    exact ⟨_, true, rfl, h.cap ▸ HeapOf.push h.heap h.data hd (h.cap ▸ hnew), by simp⟩

end Kaspad.Traversal
