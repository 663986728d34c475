import Mathlib

/-! # The greatest elements of a set

`Greatest key N s w` says that the list `w` holds the `N` elements of `s` with the greatest keys, each
once, or all of `s` when there are fewer.
-/

namespace Lib
open List

variable {α κ : Type} [LinearOrder κ] (key : α → κ)

structure Greatest (N : ℕ) (s : Set α) (w : List α) : Prop where
  nodup : w.Nodup
  subset : ∀ x ∈ w, x ∈ s
  length_le : w.length ≤ N
  rest : ∀ y ∈ s, y ∉ w → w.length = N ∧ ∀ x ∈ w, key y < key x

namespace Greatest
variable {key} {N : ℕ} {s t : Set α} {w w' : List α} {x least : α}

theorem nil (N : ℕ) : Greatest key N (∅ : Set α) [] :=
  ⟨nodup_nil, by simp, Nat.zero_le N, by simp⟩

variable (h : Greatest key N s w)
include h

theorem perm (hperm : w.Perm w') : Greatest key N s w' := by
  refine ⟨hperm.nodup_iff.mp h.nodup, fun x hx => h.subset x (hperm.mem_iff.mpr hx),
    hperm.length_eq ▸ h.length_le, fun y hy hyw => ?_⟩
  obtain ⟨hfull, hlt⟩ := h.rest y hy fun hw => hyw (hperm.mem_iff.mp hw)
  exact ⟨hperm.length_eq ▸ hfull, fun x hx => hlt x (hperm.mem_iff.mpr hx)⟩

theorem congr_key {key' : α → κ} (hkey : ∀ x ∈ s, key' x = key x) : Greatest key' N s w := by
  refine ⟨h.nodup, h.subset, h.length_le, fun y hy hyw => ?_⟩
  obtain ⟨hfull, hlt⟩ := h.rest y hy hyw
  refine ⟨hfull, fun x hx => ?_⟩
  rw [hkey y hy, hkey x (h.subset x hx)]
  exact hlt x hx

theorem insert_of_lt (hx : x ∉ s) (hlt : w.length < N) : Greatest key N (insert x s) (x :: w) := by
  refine ⟨nodup_cons.mpr ⟨fun hw => hx (h.subset x hw), h.nodup⟩, fun y hy => ?_, hlt, fun y hy hyw => ?_⟩
  · exact (mem_cons.mp hy).imp id (h.subset y)
  obtain ⟨hyx, hyw⟩ := not_or.mp (mem_cons.not.mp hyw)
  obtain ⟨hfull, -⟩ := h.rest y (hy.resolve_left hyx) hyw
  omega

omit h

theorem replace (hinj : key.Injective) (h : Greatest key N s (least :: w)) (hx : x ∉ s)
    (hfull : (least :: w).length = N) (hleast : ∀ y ∈ w, key least ≤ key y) (hlt : key least < key x) :
    Greatest key N (insert x s) (x :: w) := by
  obtain ⟨hnew, hnodup⟩ := nodup_cons.mp h.nodup
  refine ⟨nodup_cons.mpr ⟨fun hw => hx (h.subset x (mem_cons_of_mem _ hw)), hnodup⟩, fun y hy => ?_,
    hfull.le, fun y hy hyw => ⟨hfull, ?_⟩⟩
  · exact (mem_cons.mp hy).imp id fun hw => h.subset y (mem_cons_of_mem _ hw)
  obtain ⟨hyx, hyw⟩ := not_or.mp (mem_cons.not.mp hyw)
  by_cases hyl : y = least
  · subst hyl
    refine forall_mem_cons.mpr ⟨hlt, fun z hz => lt_of_le_of_ne (hleast z hz) fun heq => hnew ?_⟩
    rwa [hinj heq]
  have hbelow := (h.rest y (hy.resolve_left hyx) fun hw => hyw ((mem_cons.mp hw).resolve_left hyl)).2
  obtain ⟨hl, hw⟩ := forall_mem_cons.mp hbelow
  exact forall_mem_cons.mpr ⟨hl.trans hlt, hw⟩

include h

theorem union_of_lt (hfull : w.length = N) (hlt : ∀ y ∈ t, ∀ x ∈ w, key y < key x) : Greatest key N (s ∪ t) w := by
  refine ⟨h.nodup, fun x hx => .inl (h.subset x hx), h.length_le, fun y hy hyw => ?_⟩
  rcases hy with hy | hy
  · exact h.rest y hy hyw
  · exact ⟨hfull, hlt y hy⟩

theorem length_eq [Finite s] : w.length = min N s.ncard := by
  classical
  have hcard : (↑w.toFinset : Set α).ncard = w.length := by
    rw [Set.ncard_coe_finset, toFinset_card_of_nodup h.nodup]
  have hsub : (↑w.toFinset : Set α) ⊆ s := fun x hx => h.subset x (by simpa using hx)
  have hle := Set.ncard_le_ncard hsub s.toFinite
  rcases h.length_le.lt_or_eq with hlt | heq
  · have hall : s ⊆ (↑w.toFinset : Set α) := by
      intro y hy
      by_contra hyw
      have hfull := (h.rest y hy (by simpa using hyw)).1
      omega
    have hge := Set.ncard_le_ncard hall (finite_toSet w |>.subset (by intro x; simp))
    omega
  · omega

theorem unique (h' : Greatest key N s w') : w.Perm w' := by
  have hsub : ∀ {u v : List α}, Greatest key N s u → Greatest key N s v → ∀ x ∈ u, x ∈ v := by
    intro u v hu hv x hx
    by_contra hxv
    obtain ⟨hfull, hlt⟩ := hv.rest x (hu.subset x hx) hxv
    -- `v` is full and not all of it is in `u`, which has another element and as many places.
    obtain ⟨y, hy, hyu⟩ : ∃ y ∈ v, y ∉ u := by
      by_contra hall
      push Not at hall
      have hsubset := cons_subset.mpr ⟨hx, hall⟩
      have hle := (subperm_of_subset (nodup_cons.mpr ⟨hxv, hv.nodup⟩) hsubset).length_le
      simp only [length_cons] at hle
      have hu' := hu.length_le
      omega
    exact absurd (hlt y hy) (not_lt.mpr ((hu.rest y (hv.subset y hy) hyu).2 x hx).le)
  exact (perm_ext_iff_of_nodup h.nodup h'.nodup).mpr fun x => ⟨hsub h h' x, hsub h' h x⟩

end Greatest
end Lib
