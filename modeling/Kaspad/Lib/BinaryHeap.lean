import Mathlib

/-! # Binary heaps

Go's `container/heap` over an array: `Push`, `Pop` and the two loops `up` and `down` that they use. The
array is a heap when every node is related to its children.
-/

namespace Lib.BinaryHeap
open List Array

variable {α : Type} (less : α → α → Bool)

def lessAt (a : Array α) (i j : ℕ) : Bool :=
  match a[i]?, a[j]? with
  | some x, some y => less x y
  | _, _ => false

def up : ℕ → Array α → ℕ → Array α
  | 0, a, _ => a
  | n + 1, a, j =>
    let i := (j - 1) / 2
    if i = j ∨ lessAt less a j i = false then a else up n (a.swapIfInBounds i j) i

def minChild (a : Array α) (i n : ℕ) : ℕ :=
  if 2 * i + 2 < n ∧ lessAt less a (2 * i + 2) (2 * i + 1) = true then 2 * i + 2 else 2 * i + 1

def down (n : ℕ) : ℕ → Array α → ℕ → Array α
  | 0, a, _ => a
  | rounds + 1, a, i =>
    if 2 * i + 1 ≥ n then a
    else
      let j := minChild less a i n
      if lessAt less a j i = false then a else down n rounds (a.swapIfInBounds i j) j

def push (a : Array α) (x : α) : Array α := up less (a.size + 1) (a.push x) a.size

def pop (a : Array α) : Option (α × Array α) :=
  let n := a.size - 1
  let a' := down less n n (a.swapIfInBounds 0 n) 0
  a'[n]?.map fun x => (x, a'.pop)

/-! ## The heap order -/

/-- `less` decides a total preorder, in its strict or in its non-strict form. -/
structure Compares (R : α → α → Prop) : Prop where
  of_true : ∀ x y, less x y = true → R x y
  of_false : ∀ x y, less x y = false → R y x
  trans : ∀ x y z, R x y → R y z → R x z

variable {less} {R : α → α → Prop} {a : Array α} {i j k n : ℕ}

def At (R : α → α → Prop) (a : Array α) (i j : ℕ) : Prop :=
  ∀ x y, a[i]? = some x → a[j]? = some y → R x y

/-- The first `n` places are a heap, except at the places `k` with `bad k`. -/
def OrderedBut (R : α → α → Prop) (bad : ℕ → Prop) (a : Array α) (n : ℕ) : Prop :=
  ∀ k, 0 < k → k < n → ¬ bad k → At R a ((k - 1) / 2) k

def IsHeap (R : α → α → Prop) (a : Array α) : Prop := OrderedBut R (fun _ => False) a a.size

variable (hR : Compares less R)
include hR

theorem At.trans (hj : j < a.size) (hij : At R a i j) (hjk : At R a j k) : At R a i k := by
  intro x z hx hz
  obtain ⟨y, hy⟩ : ∃ y, a[j]? = some y := ⟨_, Array.getElem?_eq_getElem hj⟩
  exact hR.trans x y z (hij x y hx hy) (hjk y z hy hz)

theorem at_of_lessAt (h : lessAt less a i j = true) : At R a i j := by
  intro x y hx hy
  simp only [lessAt, hx, hy] at h
  exact hR.of_true x y h

theorem at_of_not_lessAt (h : lessAt less a i j = false) : At R a j i := by
  intro y x hy hx
  simp only [lessAt, hx, hy] at h
  exact hR.of_false x y h

omit hR

/-! ## Swaps -/

theorem getElem?_swap (hi : i < a.size) (hj : j < a.size) (k : ℕ) :
    (a.swapIfInBounds i j)[k]? = a[if k = i then j else if k = j then i else k]? := by
  rw [swapIfInBounds_def, dif_pos hi, dif_pos hj, Array.getElem?_swap]
  by_cases hkj : k = j
  · subst hkj
    by_cases hki : k = i
    · subst hki
      simp [hi]
    · simp [hki, hi]
  · by_cases hki : k = i
    · subst hki
      simp [Ne.symm hkj, hj]
    · simp [Ne.symm hkj, Ne.symm hki, hkj, hki]

@[simp] theorem size_swap (a : Array α) (i j : ℕ) : (a.swapIfInBounds i j).size = a.size := by
  rw [swapIfInBounds_def]
  split_ifs <;> simp

theorem perm_swap (a : Array α) (i j : ℕ) : (a.swapIfInBounds i j).toList.Perm a.toList := by
  rw [swapIfInBounds_def]
  split_ifs with hi hj
  · exact perm_iff_toList_perm.mp (swap_perm hi hj)
  · rfl
  · rfl

theorem at_swap (hi : i < a.size) (hj : j < a.size) (k l : ℕ) : At R (a.swapIfInBounds i j) k l ↔
      At R a (if k = i then j else if k = j then i else k) (if l = i then j else if l = j then i else l) := by
  simp only [At, getElem?_swap hi hj]

/-! ## Up -/

/-- The state of `up`: the order may fail between `j` and its parent only, and the children of `j`
are right below that parent. -/
structure UpTo (R : α → α → Prop) (a : Array α) (j : ℕ) : Prop where
  ordered : OrderedBut R (· = j) a a.size
  above : ∀ k, k < a.size → 0 < j → 0 < k → (k - 1) / 2 = j → At R a ((j - 1) / 2) k

include hR

theorem UpTo.swap (h : UpTo R a j) (hj : j < a.size) (hne : (j - 1) / 2 ≠ j)
    (hless : At R a j ((j - 1) / 2)) : UpTo R (a.swapIfInBounds ((j - 1) / 2) j) ((j - 1) / 2) := by
  have hi : (j - 1) / 2 < a.size := by omega
  constructor
  · intro k hk hkn hki
    rw [size_swap] at hkn
    rw [at_swap hi hj]
    by_cases hkj : k = j
    · subst hkj
      simpa [hne.symm] using hless
    rw [if_neg hki, if_neg hkj]
    have hold := h.ordered k hk hkn hkj
    split_ifs with h1 h2
    · -- A sibling of `j`, now below the value of `j`.
      exact hless.trans hR hi (h1 ▸ hold)
    · exact h.above k hkn (by omega) hk h2
    · exact hold
  · intro k hkn hi0 hk hki
    rw [size_swap] at hkn
    rw [at_swap hi hj]
    have hold := h.ordered ((j - 1) / 2) hi0 hi hne
    rw [if_neg (show ((j - 1) / 2 - 1) / 2 ≠ (j - 1) / 2 by omega), if_neg (show ((j - 1) / 2 - 1) / 2 ≠ j by omega)]
    rw [if_neg (show k ≠ (j - 1) / 2 by omega)]
    split_ifs with hkj
    · exact hold
    · exact hold.trans hR hi (hki ▸ h.ordered k hk hkn hkj)

theorem up_spec (h : UpTo R a j) (hj : j < a.size) (hn : j < n) :
    IsHeap R (up less n a j) ∧ (up less n a j).toList.Perm a.toList := by
  induction n generalizing a j with
  | zero => omega
  | succ n ih =>
    unfold up
    simp only
    split_ifs with hstop
    · refine ⟨fun k hk hkn _ => ?_, .refl _⟩
      by_cases hkj : k = j
      · subst hkj
        exact at_of_not_lessAt hR (hstop.resolve_left (by omega))
      · exact h.ordered k hk hkn hkj
    · obtain ⟨hne, hless⟩ := not_or.mp hstop
      have hstep := h.swap hR hj hne (at_of_lessAt hR (by simpa using hless))
      obtain ⟨hheap, hperm⟩ := ih hstep (by rw [size_swap]; omega) (by omega)
      exact ⟨hheap, hperm.trans (perm_swap a _ _)⟩

theorem push_spec (h : IsHeap R a) (x : α) :
    IsHeap R (push less a x) ∧ (push less a x).toList.Perm (x :: a.toList) := by
  have hstart : UpTo R (a.push x) a.size := by
    refine ⟨fun k hk hkn hne y z hy hz => ?_, fun k hkn _ hk hka => ?_⟩
    · have hlt : k < a.size := by simp at hkn; omega
      rw [Array.getElem?_push, if_neg (by omega)] at hy
      rw [Array.getElem?_push, if_neg (by omega)] at hz
      exact h k hk hlt id y z hy hz
    · simp at hkn
      omega
  obtain ⟨hheap, hperm⟩ := up_spec hR hstart (by simp) (Nat.lt_succ_self a.size)
  refine ⟨hheap, hperm.trans ?_⟩
  rw [toList_push]
  exact perm_append_comm

omit hR

/-! ## Down -/

/-- The state of `down`: the order may fail between `i` and its children only, and these are right
below the parent of `i`. -/
structure DownTo (R : α → α → Prop) (a : Array α) (n i : ℕ) : Prop where
  ordered : OrderedBut R (fun k => (k - 1) / 2 = i) a n
  above : ∀ k, k < n → 0 < i → 0 < k → (k - 1) / 2 = i → At R a ((i - 1) / 2) k

include hR in
theorem minChild_spec (h : 2 * i + 1 < n) :
    minChild less a i n < n ∧ (minChild less a i n - 1) / 2 = i ∧ i < minChild less a i n ∧
      ∀ k, 0 < k → k < n → (k - 1) / 2 = i → k ≠ minChild less a i n → At R a (minChild less a i n) k := by
  unfold minChild
  split_ifs with hright
  · refine ⟨hright.1, by omega, by omega, fun k hk _ hki hne => ?_⟩
    obtain rfl : k = 2 * i + 1 := by omega
    exact at_of_lessAt hR hright.2
  refine ⟨h, by omega, by omega, fun k hk hkn hki hne => ?_⟩
  obtain rfl : k = 2 * i + 2 := by omega
  exact at_of_not_lessAt hR (by simpa using fun hlt => hright ⟨hkn, hlt⟩)

theorem DownTo.swap (h : DownTo R a n i) (hn : n ≤ a.size) (hjn : j < n)
    (hji : (j - 1) / 2 = i) (hij : i < j) (hless : At R a j i)
    (hmin : ∀ k, 0 < k → k < n → (k - 1) / 2 = i → k ≠ j → At R a j k) : DownTo R (a.swapIfInBounds i j) n j := by
  have hi : i < a.size := by omega
  have hj : j < a.size := by omega
  constructor
  · intro k hk hkn hkj
    rw [at_swap hi hj]
    by_cases hki : (k - 1) / 2 = i
    · rw [if_pos hki, if_neg (show k ≠ i by omega)]
      split_ifs with heq
      · exact hless
      · exact hmin k hk hkn hki heq
    rw [if_neg hki, if_neg hkj]
    split_ifs with h1 h2
    · -- The value of `j` is now below the parent of `i`.
      subst h1
      exact h.above j hjn hk (by omega) hji
    · exact absurd (h2 ▸ hji) hki
    · exact h.ordered k hk hkn hki
  · intro k hkn hj0 hk hkj
    rw [at_swap hi hj, hji, if_pos rfl, if_neg (show k ≠ i by omega), if_neg (show k ≠ j by omega)]
    exact hkj ▸ h.ordered k hk hkn (by omega)

include hR

theorem down_spec {rounds : ℕ} (h : DownTo R a n i) (hn : n ≤ a.size) (hrounds : n ≤ rounds + i) :
    OrderedBut R (fun _ => False) (down less n rounds a i) n ∧
      (down less n rounds a i).toList.Perm a.toList ∧ ∀ k, n ≤ k → (down less n rounds a i)[k]? = a[k]? := by
  have hstop : 2 * i + 1 ≥ n → OrderedBut R (fun _ => False) a n :=
    fun hge k hk hkn _ => h.ordered k hk hkn (by omega)
  induction rounds generalizing a i with
  | zero => exact ⟨hstop (by omega), .refl _, fun _ _ => rfl⟩
  | succ rounds ih =>
    unfold down
    simp only
    split_ifs with hge hless
    · exact ⟨hstop hge, .refl _, fun _ _ => rfl⟩
    · obtain ⟨hjn, hji, hij, hmin⟩ := minChild_spec hR (not_le.mp hge)
      refine ⟨fun k hk hkn _ => ?_, .refl _, fun _ _ => rfl⟩
      by_cases hki : (k - 1) / 2 = i
      · have hfirst := at_of_not_lessAt hR hless
        by_cases hkj : k = minChild less a i n
        · exact hki ▸ hkj ▸ hfirst
        · exact hki ▸ hfirst.trans hR (by omega) (hmin k hk hkn hki hkj)
      · exact h.ordered k hk hkn hki
    · obtain ⟨hjn, hji, hij, hmin⟩ := minChild_spec hR (not_le.mp hge)
      have hstep := h.swap hn hjn hji hij (at_of_lessAt hR (by simpa using hless)) hmin
      obtain ⟨hheap, hperm, hrest⟩ := ih hstep (by rwa [size_swap]) (by omega)
        (fun hge' k hk hkn _ => hstep.ordered k hk hkn (by omega))
      refine ⟨hheap, hperm.trans (perm_swap a _ _), fun k hk => ?_⟩
      rw [hrest k hk, getElem?_swap (by omega) (by omega), if_neg (by omega), if_neg (by omega)]

theorem IsHeap.root (hrefl : ∀ x, R x x) (h : IsHeap R a) (hk : k < a.size) : At R a 0 k := by
  induction k using Nat.strong_induction_on with
  | _ k ih =>
    rcases Nat.eq_zero_or_pos k with rfl | hpos
    · intro x y hx hy
      cases hx.symm.trans hy
      exact hrefl x
    · exact (ih ((k - 1) / 2) (by omega) (by omega)).trans hR (by omega) (h k hpos hk id)

omit hR

theorem pop_eq_none (ha : a.size = 0) : pop less a = none := by
  obtain rfl := eq_empty_of_size_eq_zero ha
  simp [pop, down]

include hR in
theorem pop_spec (hrefl : ∀ x, R x x) (h : IsHeap R a) (ha : 0 < a.size) :
    ∃ x a', pop less a = some (x, a') ∧ a[0]? = some x ∧ IsHeap R a' ∧ a.toList.Perm (x :: a'.toList) ∧
      ∀ y ∈ a.toList, R x y := by
  set n := a.size - 1 with hn
  have hlast : n < a.size := by omega
  have hstart : DownTo R (a.swapIfInBounds 0 n) n 0 := by
    refine ⟨fun k hk hkn hne => ?_, fun k _ h0 => absurd h0 (lt_irrefl 0)⟩
    rw [at_swap ha hlast, if_neg hne, if_neg (by omega), if_neg (by omega), if_neg (by omega)]
    exact h k hk (by omega) id
  obtain ⟨hheap, hperm, hrest⟩ := down_spec hR hstart (by rw [size_swap]; omega) (show n ≤ n + 0 by omega)
  set b := down less n n (a.swapIfInBounds 0 n) 0 with hb
  have hsize : b.size = a.size := by simpa using hperm.length_eq
  have hroot : b[n]? = a[0]? := by
    rw [hrest n le_rfl, getElem?_swap ha hlast]
    by_cases hzero : n = 0
    · rw [if_pos hzero, hzero]
    · rw [if_neg hzero, if_pos rfl]
  obtain ⟨x, hx⟩ : ∃ x, a[0]? = some x := ⟨_, Array.getElem?_eq_getElem ha⟩
  have hbx : b[n]? = some x := hroot.trans hx
  refine ⟨x, b.pop, ?_, hx, fun k hk hkn _ => ?_, ?_, fun y hy => ?_⟩
  · simp only [pop, ← hn, ← hb, hbx, Option.map_some]
  · simp only [size_pop] at hkn
    intro y z hy hz
    rw [Array.getElem?_pop, if_pos (by omega)] at hy hz
    exact hheap k hk (by omega) id y z hy hz
  · refine ((perm_swap a 0 n).symm.trans hperm.symm).trans ?_
    have hsplit : b.toList = b.toList.dropLast ++ [x] := by
      have hlen : b.toList.length - 1 = n := by simp [hsize, hn]
      have hlast? : b.toList.getLast? = some x := by
        rw [List.getLast?_eq_getElem?, hlen]
        simpa using hbx
      obtain ⟨l, hl⟩ := List.getLast?_eq_some_iff.mp hlast?
      rw [hl, dropLast_concat]
    rw [toList_pop]
    conv_lhs => rw [hsplit]
    exact perm_append_comm
  · obtain ⟨k, hk, rfl⟩ := getElem_of_mem hy
    exact h.root hR hrefl hk x _ hx (by simp)

end Lib.BinaryHeap
