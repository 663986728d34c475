import Mathlib.Data.List.Basic
import Mathlib.Order.Lattice

/-! # Lists sorted by a key

A list whose keys increase strictly, searched with `sortSearch` for the place of a key: inserting
there keeps the list sorted, and the element with that key, if there is one, is found there.
-/

namespace Lib
open List

/-! ## Binary search

`sort.Search(n, f)`: the smallest index below `n` at which `f` holds, or `n`, for an `f` that stays
true once it is true.
-/

def sortSearchLoop (f : ℕ → Bool) : ℕ → ℕ → ℕ → ℕ
  | 0, i, _ => i
  | rounds + 1, i, j =>
    if i < j then
      let h := (i + j) / 2
      if f h then sortSearchLoop f rounds i h else sortSearchLoop f rounds (h + 1) j
    else i

def sortSearch (n : ℕ) (f : ℕ → Bool) : ℕ := sortSearchLoop f n 0 n

/-- `k` separates the indices below `n` where `f` fails from those where it holds. -/
structure SplitsAt (n : ℕ) (f : ℕ → Bool) (k : ℕ) : Prop where
  le : k ≤ n
  below : ∀ i, i < k → f i = false
  above : ∀ i, k ≤ i → i < n → f i = true

variable {f : ℕ → Bool}

theorem sortSearchLoop_eq {n : ℕ} {k : ℕ} (h : SplitsAt n f k) (rounds i j : ℕ) (hik : i ≤ k)
    (hkj : k ≤ j) (hjn : j ≤ n) (hr : j - i ≤ rounds) : sortSearchLoop f rounds i j = k := by
  induction rounds generalizing i j with
  | zero =>
    unfold sortSearchLoop
    omega
  | succ rounds ih =>
    unfold sortSearchLoop
    by_cases hij : i < j
    · rw [if_pos hij]
      by_cases hf : f ((i + j) / 2) = true
      · have hle : k ≤ (i + j) / 2 := by
          by_contra hlt
          rw [h.below _ (by omega)] at hf
          cases hf
        rw [if_pos hf]
        exact ih i _ hik hle (by omega) (by omega)
      · have hlt : (i + j) / 2 < k := by
          by_contra hge
          exact hf (h.above _ (by omega) (by omega))
        rw [if_neg hf]
        exact ih _ j (by omega) hkj hjn (by omega)
    · rw [if_neg hij]
      omega

theorem sortSearch_eq {n : ℕ} {k : ℕ} (h : SplitsAt n f k) : sortSearch n f = k :=
  sortSearchLoop_eq h n 0 n (Nat.zero_le k) h.le (Nat.le_refl n) (by omega)

variable {α κ : Type} [LinearOrder κ] (key : α → κ)

def SortedBy (l : List α) : Prop := l.Pairwise fun a b => key a < key b

def place (l : List α) (k : κ) : ℕ :=
  sortSearch l.length fun i => (l[i]?).any fun e => decide (k ≤ key e)

variable {key}

theorem place_append {l₁ l₂ : List α} {k : κ} (h₁ : ∀ e ∈ l₁, key e < k) (h₂ : ∀ e ∈ l₂, k ≤ key e) :
    place key (l₁ ++ l₂) k = l₁.length := by
  apply sortSearch_eq
  refine ⟨by simp, fun i hi => ?_, fun i hi hlen => ?_⟩
  · rw [List.getElem?_append_left hi, List.getElem?_eq_getElem hi]
    simpa using h₁ _ (getElem_mem hi)
  rw [List.getElem?_append_right hi]
  have hi' : i - l₁.length < l₂.length := by
    rw [length_append] at hlen
    omega
  rw [List.getElem?_eq_getElem hi']
  simpa using h₂ _ (getElem_mem hi')

variable {l : List α} {e : α}

theorem SortedBy.split (h : SortedBy key l) (k : κ) :
    ∃ l₁ l₂, l = l₁ ++ l₂ ∧ (∀ e ∈ l₁, key e < k) ∧ ∀ e ∈ l₂, k ≤ key e := by
  induction l with
  | nil => exact ⟨[], [], rfl, by simp, by simp⟩
  | cons a l ih =>
    obtain ⟨ha, hl⟩ := pairwise_cons.mp h
    rcases lt_or_ge (key a) k with hlt | hge
    · obtain ⟨l₁, l₂, rfl, h₁, h₂⟩ := ih hl
      exact ⟨a :: l₁, l₂, rfl, by simpa [hlt] using h₁, h₂⟩
    · exact ⟨[], a :: l, rfl, by simp, forall_mem_cons.mpr ⟨hge, fun e he => hge.trans (ha e he).le⟩⟩

theorem SortedBy.insert_place (h : SortedBy key l) {t : α} (hnew : ∀ e ∈ l, key e ≠ key t) :
    SortedBy key (l.take (place key l (key t)) ++ t :: l.drop (place key l (key t))) := by
  obtain ⟨l₁, l₂, rfl, h₁, h₂⟩ := h.split (key t)
  rw [place_append h₁ h₂, take_left, drop_left]
  obtain ⟨hp₁, hp₂, hcross⟩ := pairwise_append.mp h
  refine pairwise_append.mpr ⟨hp₁, pairwise_cons.mpr ⟨fun e he => ?_, hp₂⟩, ?_⟩
  · exact lt_of_le_of_ne (h₂ e he) fun heq => hnew e (by simp [he]) heq.symm
  intro a ha b hb
  rcases mem_cons.mp hb with rfl | hb
  · exact h₁ a ha
  · exact hcross a ha b hb

theorem mem_insert_place {t x : α} {i : ℕ} : x ∈ l.take i ++ t :: l.drop i ↔ x = t ∨ x ∈ l := by
  conv_rhs => rw [← take_append_drop i l]
  simp only [mem_append, mem_cons]
  tauto

theorem SortedBy.split_at (h : SortedBy key l) (he : e ∈ l) :
    ∃ l₁ l₂, l = l₁ ++ e :: l₂ ∧ place key l (key e) = l₁.length := by
  obtain ⟨l₁, l₂, rfl⟩ := append_of_mem he
  obtain ⟨-, hp₂, hcross⟩ := pairwise_append.mp h
  exact ⟨l₁, l₂, rfl, place_append (fun a ha => hcross a ha e (by simp))
    (forall_mem_cons.mpr ⟨le_rfl, fun a ha => ((pairwise_cons.mp hp₂).1 a ha).le⟩)⟩

theorem SortedBy.getElem?_place (h : SortedBy key l) (he : e ∈ l) : l[place key l (key e)]? = some e := by
  obtain ⟨l₁, l₂, hl, hplace⟩ := h.split_at he
  rw [hplace, hl]
  simp

theorem SortedBy.mem_eraseIdx_place (h : SortedBy key l) (he : e ∈ l) {x : α} :
    x ∈ l.eraseIdx (place key l (key e)) ↔ x ∈ l ∧ x ≠ e := by
  obtain ⟨l₁, l₂, hl, hplace⟩ := h.split_at he
  rw [hplace, hl] 
  rw [hl] at h
  obtain ⟨-, hp₂, hcross⟩ := pairwise_append.mp h
  have h₁ : ∀ a ∈ l₁, a ≠ e := fun a ha heq => (hcross a ha e (by simp)).ne (congrArg key heq)
  have h₂ : ∀ a ∈ l₂, a ≠ e := fun a ha heq =>
    ((pairwise_cons.mp hp₂).1 a ha).ne (congrArg key heq.symm)
  rw [eraseIdx_append_of_length_le (Nat.le_refl _), Nat.sub_self, eraseIdx_cons_zero]
  simp only [mem_append, mem_cons]
  constructor
  · rintro (hx | hx)
    · exact ⟨.inl hx, h₁ x hx⟩
    · exact ⟨.inr (.inr hx), h₂ x hx⟩
  rintro ⟨hx | hx | hx, hne⟩
  · exact .inl hx
  · exact absurd hx hne
  · exact .inr hx

theorem SortedBy.eraseIdx (h : SortedBy key l) (i : ℕ) : SortedBy key (l.eraseIdx i) :=
  h.sublist (eraseIdx_sublist l i)

end Lib
