import Mathlib.Data.List.Forall2
import Mathlib.Data.List.Induction
import Mathlib.Data.List.Nodup
import Mathlib.Data.Nat.Notation

/-! # Lists cut into pieces and lists in step -/

namespace Lib
open List

variable {α β γ : Type}

theorem flatMap_pieces (l : List α) (count piece : ℕ) :
    (List.range count).flatMap (fun i => (l.take (i * piece + piece)).drop (i * piece)) = l.take (count * piece) := by
  induction count with
  | zero => simp
  | succ count ih =>
    have hprefix : l.take (count * piece) = (l.take (count * piece + piece)).take (count * piece) := by
      rw [take_take, Nat.min_eq_left (Nat.le_add_right _ _)]
    rw [range_succ, flatMap_append, ih, flatMap_singleton, hprefix, take_append_drop,
      Nat.succ_mul]

theorem flatMap_eq_of_forall₂ {f : α → List γ} {g : β → List γ} {l : List α} {l' : List β}
    (h : List.Forall₂ (fun a b => g b = f a) l l') : l'.flatMap g = l.flatMap f := by
  induction h with
  | nil => rfl
  | cons hab _ ih => rw [flatMap_cons, flatMap_cons, hab, ih]

theorem exists_of_mem_right {R : α → β → Prop} {l : List α} {l' : List β} (h : List.Forall₂ R l l') {b : β}
    (hb : b ∈ l') : ∃ a ∈ l, R a b := by
  induction h with
  | nil => cases hb
  | @cons a b' l l' hab _ ih =>
    obtain rfl | hb := mem_cons.mp hb
    · exact ⟨a, mem_cons_self, hab⟩
    obtain ⟨a', ha', hR⟩ := ih hb
    exact ⟨a', mem_cons_of_mem _ ha', hR⟩

theorem zipWith_right (g : β → γ) (l : List α) (l' : List β) (h : l'.length ≤ l.length) :
    List.zipWith (fun _ b => g b) l l' = l'.map g := by
  induction l' generalizing l with
  | nil => simp
  | cons b l' ih =>
    cases l with
    | nil => simp at h
    | cons a l => rw [zipWith_cons_cons, ih l (by simpa using h), map_cons]

/-- No image is among those of the elements before it. -/
theorem nodup_map_iff_notMem {f : α → β} {l : List α} :
    (l.map f).Nodup ↔ ∀ before x after, l = before ++ x :: after → f x ∉ before.map f := by
  constructor
  · rintro h before x after rfl hx
    rw [map_append, map_cons, nodup_append] at h
    exact h.2.2 (f x) hx (f x) (by simp) rfl
  intro h
  induction l using reverseRecOn with
  | nil => exact nodup_nil
  | append_singleton l a ih =>
    have hrest := ih fun before x after heq => h before x (after ++ [a]) (by simp [heq])
    rw [map_append, nodup_append]
    refine ⟨hrest, nodup_singleton _, fun b hb c hc hbc => h l a [] rfl ?_⟩
    rwa [← mem_singleton.mp hc, ← hbc]

end Lib
