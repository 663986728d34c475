import Mathlib.Data.Int.Notation
import Mathlib.Data.List.Basic

/-! # Slices

Index and slice expressions of the source language. An expression out of range stops the program; here it
has no value.
-/

namespace Lib.GoSlice
open List

variable {α : Type}

def index (l : List α) (i : ℤ) : Option α := if 0 ≤ i then l[i.toNat]? else none

def slice (l : List α) (low high : ℤ) : Option (List α) :=
  if 0 ≤ low ∧ low ≤ high ∧ high ≤ l.length then some ((l.take high.toNat).drop low.toNat) else none

theorem index_natCast (l : List α) (i : ℕ) : index l i = l[i]? := by simp [index]

variable {l : List α}

theorem exists_index {i : ℤ} (h : 0 ≤ i) (h' : i < l.length) : ∃ a, index l i = some a := by
  obtain ⟨n, rfl⟩ := Int.eq_ofNat_of_zero_le h
  have hn : n < l.length := by omega
  exact ⟨l[n], by simp [index, hn]⟩

variable {low high : ℤ}

theorem exists_slice (h : 0 ≤ low) (h' : low ≤ high) (h'' : high ≤ l.length) :
    ∃ l', slice l low high = some l' := ⟨_, if_pos ⟨h, h', h''⟩⟩

variable {l' : List α}

theorem length_of_slice (h : slice l low high = some l') : (l'.length : ℤ) = high - low := by
  unfold slice at h
  split_ifs at h with hrange
  cases h
  simp only [length_drop, length_take]
  omega

theorem mem_of_slice (h : slice l low high = some l') : ∀ a ∈ l', a ∈ l := by
  unfold slice at h
  split_ifs at h
  cases h
  exact fun a ha => mem_of_mem_take (mem_of_mem_drop ha)

theorem mem_of_index {i : ℤ} {a : α} (h : index l i = some a) : a ∈ l := by
  unfold index at h
  split_ifs at h
  exact mem_of_getElem? h

end Lib.GoSlice
