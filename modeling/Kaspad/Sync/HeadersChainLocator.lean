import Kaspad.HeadersSelectedChain.Staging
import Kaspad.Lib.Doubling

/-! # Locators of the headers selected chain

`createHeadersSelectedChainBlockLocator` of `domain/consensus/processes/syncmanager/blocklocator.go`: the blocks
of the headers selected chain from `highHash` down to `lowHash`, at distances that double. Reads of the store
change its caches only, which is left out here: no read depends on them (`getIndexByHash_spec`).
-/

namespace Kaspad.Sync
open Lib HeadersSelectedChain List Nat Doubling

inductive LocatorError
  /-- `model.ErrBlockNotInSelectedParentChain` -/
  | errBlockNotInSelectedParentChain
  | store (error : ChainStoreError)
  /-- "cannot build block locator while highHash is lower than lowHash" -/
  | highHashIsLower
  | running
  deriving DecidableEq

variable (v : Victims) (s : ChainStore)

def chainIndex (hash : DomainHash) : Except LocatorError ℕ :=
  match (getIndexByHash v .empty s hash).1 with
  | .ok index => .ok index
  | .error .notFound => .error .errBlockNotInSelectedParentChain
  | .error e => .error (.store e)

def headersChainLocatorLoop (lowHashIndex : ℕ) : ℕ → ℕ → ℕ → List DomainHash → Except LocatorError (List DomainHash)
  | 0, _, _, _ => .error .running
  | rounds + 1, currentIndex, step, locator =>
    if currentIndex > lowHashIndex then
      match (getHashByIndex v .empty s currentIndex).1 with
      | .error e => .error (.store e)
      | .ok blockHash =>
        if currentIndex < step then .ok (locator ++ [blockHash])
        else headersChainLocatorLoop lowHashIndex rounds (currentIndex - step) (step * 2 % 2 ^ 64) (locator ++ [blockHash])
    else .ok locator

def createHeadersSelectedChainBlockLocator (genesisHash : DomainHash) (rounds : ℕ) (lowHash highHash : DomainHash) :
    Except LocatorError (List DomainHash) :=
  if highHash = genesisHash ∧ lowHash = genesisHash then .ok [genesisHash]
  else do
    let lowHashIndex ← chainIndex v s lowHash
    let highHashIndex ← chainIndex v s highHash
    if highHashIndex < lowHashIndex then .error .highHashIsLower
    else do
      let locator ← headersChainLocatorLoop v s lowHashIndex rounds highHashIndex 1 []
      pure (locator ++ [lowHash])

/-! ## The blocks of a locator -/

variable {v s} {l : List DomainHash}

/-- The hashes of the chain at the indices. -/
def hashesAt (l : List DomainHash) (indices : List ℕ) : List DomainHash := indices.map (l.getD · 0)

variable (hs : s.Coherent) (hl : s.db.Lists l)
include hs hl

theorem chainIndex_eq {i : ℕ} {hash : DomainHash} (h : l[i]? = some hash) : chainIndex v s hash = .ok i := by
  have hread := (getIndexByHash_spec v hs .empty hash).1
  have hlookup : indexThrough .empty s.db hash = some i := (hl.byHash hash i).mpr h
  rw [hlookup] at hread
  rw [chainIndex, hread]
  rfl

theorem getHashByIndex_eq {i : ℕ} (h : i < l.length) : (getHashByIndex v .empty s i).1 = .ok (l.getD i 0) := by
  have hlookup : hashThrough .empty s.db i = some (l.getD i 0) := by
    refine (hl.byIndex i).trans ?_
    rw [getD_eq_getElem _ _ h, List.getElem?_eq_getElem h]
  rw [getHashByIndex_spec v hs .empty i, hlookup]
  rfl

variable {rounds : ℕ}

theorem headersChainLocatorLoop_eq {lo hi : ℕ} (hhi : hi < l.length) (hlen : l.length ≤ 2 ^ 64)
    {j k : ℕ} (hk : (hi - lo).size = j + k) (hrounds : k < rounds) (locator : List DomainHash) :
    headersChainLocatorLoop v s lo rounds (hi + 1 - 2 ^ j) (2 ^ j % 2 ^ 64) locator =
      .ok (locator ++ hashesAt l ((List.range' j k).map fun j => hi + 1 - 2 ^ j)) := by
  induction k generalizing rounds j locator with
  | zero =>
    obtain ⟨rounds, rfl⟩ : ∃ r, rounds = r + 1 := ⟨rounds - 1, by omega⟩
    have hlt : hi - lo < 2 ^ j := size_le.mp hk.le
    rw [headersChainLocatorLoop, if_neg (by omega)]
    simp [hashesAt]
  | succ k ih =>
    obtain ⟨rounds, rfl⟩ : ∃ r, rounds = r + 1 := ⟨rounds - 1, by omega⟩
    have hpow : 2 ^ j ≤ hi - lo := lt_size.mp (by omega)
    have hpos := Nat.two_pow_pos j
    have hstep : 2 ^ j % 2 ^ 64 = 2 ^ j := Nat.mod_eq_of_lt (by omega)
    have hrange : List.range' j (k + 1) = j :: List.range' (j + 1) k := rfl
    rw [hstep, headersChainLocatorLoop, if_pos (by omega), getHashByIndex_eq hs hl (by omega), hrange]
    dsimp only
    split_ifs with hstop
    · -- The next index would be negative, and `lo` is reached before it.
      have hzero : k = 0 := by
        have hsize : (hi - lo).size ≤ j + 1 := size_le.mpr (by rw [pow_succ]; omega)
        omega
      subst hzero
      rfl
    · have hnext : hi + 1 - 2 ^ j - 2 ^ j = hi + 1 - 2 ^ (j + 1) := by rw [pow_succ]; omega
      rw [hnext, ← pow_succ, ih (by omega) (by omega)]
      simp [hashesAt]

theorem createHeadersSelectedChainBlockLocator_eq (hlen : l.length ≤ 2 ^ 64) {lo hi : ℕ}
    {lowHash highHash : DomainHash} (hlow : l[lo]? = some lowHash) (hhigh : l[hi]? = some highHash)
    (hle : lo ≤ hi) (genesisHash : DomainHash) (hrounds : (hi - lo).size < rounds) :
    createHeadersSelectedChainBlockLocator v s genesisHash rounds lowHash highHash =
      .ok (hashesAt l (Doubling.points lo hi)) := by
  have hhi := (List.getElem?_eq_some_iff.mp hhigh).1
  have hlast : l.getD lo 0 = lowHash := by rw [getD_eq_getElem?_getD, hlow, Option.getD_some]
  unfold createHeadersSelectedChainBlockLocator
  split_ifs with hgenesis
  · obtain ⟨rfl, rfl⟩ := hgenesis
    have hsame : hi = lo := Option.some.inj (((hl.byHash _ _).mpr hhigh).symm.trans ((hl.byHash _ _).mpr hlow))
    rw [hsame, points_self, hashesAt, map_singleton, hlast]
  have hloop := headersChainLocatorLoop_eq (v := v) hs hl hhi hlen (j := 0) (zero_add _).symm hrounds []
  rw [Nat.pow_zero, Nat.mod_eq_of_lt (by decide), Nat.add_sub_cancel, ← range_eq_range'] at hloop
  simp only [chainIndex_eq hs hl hlow, chainIndex_eq hs hl hhigh, ok_bind]
  rw [if_neg (by omega), hloop]
  simp [Doubling.points, hashesAt, hlow, pure, Except.pure]

omit hs hl

/-- A locator between two blocks of the chain: the distances between its blocks are 1, 2, 4, …, and the last one
is what remains. -/
theorem createHeadersSelectedChainBlockLocator_spec (hs : s.Coherent) (hl : s.db.Lists l) (hlen : l.length ≤ 2 ^ 64)
    {lo hi : ℕ} {lowHash highHash : DomainHash} (hlow : l[lo]? = some lowHash) (hhigh : l[hi]? = some highHash)
    (genesisHash : DomainHash) {rounds : ℕ} (hrounds : 65 ≤ rounds) : (lo ≤ hi → ∃ indices,
      createHeadersSelectedChainBlockLocator v s genesisHash rounds lowHash highHash = .ok (hashesAt l indices) ∧
        indices.head? = some hi ∧ indices.getLast? = some lo ∧
        (∀ before i i' after, indices = before ++ i :: i' :: after → i' < i ∧ i - i' ≤ 2 ^ before.length ∧
          (after ≠ [] → i - i' = 2 ^ before.length)) ∧ indices.length ≤ Nat.log2 (hi - lo + 1) + 2) ∧
      (hi < lo → createHeadersSelectedChainBlockLocator v s genesisHash rounds lowHash highHash =
        .error .highHashIsLower) := by
  have hhi : hi < l.length := (List.getElem?_eq_some_iff.mp hhigh).1
  refine ⟨fun hle => ?_, fun hlt => ?_⟩
  · have hsize : (hi - lo).size ≤ 64 := size_le.mpr (by omega)
    refine ⟨Doubling.points lo hi, createHeadersSelectedChainBlockLocator_eq hs hl hlen hlow hhigh hle genesisHash
      (by omega), Doubling.head?_points hle, Doubling.getLast?_points lo hi, fun before i i' after h => ?_, ?_⟩
    · obtain ⟨-, hfalls, hgap⟩ := points_gap hle h
      have hlength := congrArg List.length h
      simp only [length_points, length_append, length_cons] at hlength
      have hafter : hi - lo < 2 ^ (before.length + 1) → after = [] := fun hlast => by
        have := size_le.mpr hlast
        exact length_eq_zero_iff.mp (by omega)
      rw [pow_succ] at hgap hafter
      refine ⟨hfalls, by omega, fun hne => ?_⟩
      rcases hgap with ⟨heq, -⟩ | ⟨-, hlast⟩
      · exact heq
      · exact absurd (hafter hlast) hne
    · rw [length_points]
      have hlog : (hi - lo).size ≤ Nat.log2 (hi - lo + 1) + 1 :=
        size_le.mpr ((lt_succ_self _).trans lt_log2_self)
      omega
  · unfold createHeadersSelectedChainBlockLocator
    rw [if_neg]
    · simp only [chainIndex_eq hs hl hlow, chainIndex_eq hs hl hhigh, ok_bind, if_pos hlt]
    rintro ⟨rfl, rfl⟩
    have hsame := ((hl.byHash _ _).mpr hhigh).symm.trans ((hl.byHash _ _).mpr hlow)
    exact absurd (Option.some.inj hsame) (by omega)

def sampleStore : ChainStore :=
  ⟨⟨∅, 0⟩, ⟨∅, 0⟩, 0, ⟨((∅ : GoMap DomainHash ℕ).insert 7 0 |>.insert 8 1 |>.insert 9 2),
      ((∅ : GoMap ℕ DomainHash).insert 0 7 |>.insert 1 8 |>.insert 2 9), some 2⟩⟩

theorem sampleStore_coherent : sampleStore.Coherent := by
  constructor <;> simp [sampleStore, Cache.Within, Cache.get]

theorem sampleStore_lists : sampleStore.db.Lists [7, 8, 9] := by
  have hbyIndex : ∀ index, sampleStore.db.hashByIndex.lookup index = [7, 8, 9][index]?
    | 0 => rfl
    | 1 => rfl
    | 2 => rfl
    | n + 3 => by simp only [sampleStore, GoMap.lookup_set, AList.lookup_empty]; rfl
  refine ⟨fun hash index => ?_, hbyIndex, rfl⟩
  rw [← hbyIndex]
  simp only [sampleStore, GoMap.lookup_set, AList.lookup_empty]
  split_ifs <;> grind

theorem createHeadersSelectedChainBlockLocator_spec_sample :
    createHeadersSelectedChainBlockLocator ⟨fun _ => 0, fun _ => 0⟩ sampleStore 7 65 9 7 = .error .highHashIsLower ∧
      ∃ indices, createHeadersSelectedChainBlockLocator ⟨fun _ => 0, fun _ => 0⟩ sampleStore 7 65 7 9 =
        .ok (hashesAt [7, 8, 9] indices) ∧ indices.head? = some 2 ∧ indices.getLast? = some 0 := by
  have hfirst : [7, 8, 9][0]? = some 7 := rfl
  have hlast : [7, 8, 9][2]? = some 9 := rfl
  refine ⟨(createHeadersSelectedChainBlockLocator_spec sampleStore_coherent sampleStore_lists (by decide) hlast hfirst
    7 le_rfl).2 (by decide), ?_⟩
  obtain ⟨indices, hok, hhead, hend, -⟩ := (createHeadersSelectedChainBlockLocator_spec sampleStore_coherent
    sampleStore_lists (by decide) hfirst hlast 7 le_rfl).1 (by decide)
  exact ⟨indices, hok, hhead, hend⟩

end Kaspad.Sync
