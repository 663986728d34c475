import Mathlib.Algebra.BigOperators.Finprod

/-! # Totals over a partial map

A partial map with finitely many entries, and the sum of a weight over its entries.
-/

namespace Lib
open Function List

variable {K V M : Type} [AddCommMonoid M]

def FinitelyMany (S : K → Option V) : Prop := {k | S k ≠ none}.Finite

noncomputable def total (weight : K → V → M) (S : K → Option V) : M := ∑ᶠ k, (S k).elim 0 (weight k)

variable {weight : K → V → M} {S : K → Option V} {k : K} {v : V}

theorem finitelyMany_none : FinitelyMany fun _ : K => (none : Option V) := by
  simp [FinitelyMany]

theorem total_none : total weight (fun _ : K => (none : Option V)) = 0 := by
  simp [total]

variable (h : FinitelyMany S)
include h

theorem FinitelyMany.support : (support fun k => (S k).elim 0 (weight k)).Finite := by
  refine h.subset fun k hk hnone => hk ?_
  simp [hnone]

theorem FinitelyMany.update [DecidableEq K] (k : K) (v : Option V) : FinitelyMany (update S k v) := by
  refine (h.insert k).subset fun x hx => ?_
  by_cases heq : x = k
  · exact .inl heq
  refine .inr fun hnone => hx ?_
  rw [update_of_ne heq, hnone]

theorem total_set [DecidableEq K] (hk : S k = none) (v : V) :
    total weight (update S k (some v)) = total weight S + weight k v := by
  have hsplit : (fun x => (update S k (some v) x).elim 0 (weight x)) =
      fun x => (S x).elim 0 (weight x) + if x = k then weight k v else 0 := by
    funext x
    by_cases heq : x = k
    · subst heq
      simp [hk]
    · simp [heq]
  have hsingle : (Function.support fun x => if x = k then weight k v else 0).Finite := by
    refine (Set.finite_singleton k).subset fun x hx => ?_
    by_contra hne
    exact hx (if_neg hne)
  rw [total, hsplit, finsum_add_distrib h.support hsingle, ← total]
  congr 1
  rw [finsum_eq_single _ k fun x hx => if_neg hx, if_pos rfl]

theorem total_clear [DecidableEq K] (hk : S k = some v) :
    total weight (update S k none) + weight k v = total weight S := by
  have hback : update (update S k none) k (some v) = S := by
    rw [update_idem, ← hk, update_eq_self]
  rw [← total_set (h.update k none) (update_self k none S), hback]

omit h

/-! ## Several keys -/

section
variable [DecidableEq K]

def clearAll (S : K → Option V) (ks : List K) : K → Option V := ks.foldl (fun S k => update S k none) S

def setAll (S : K → Option V) (kvs : List (K × V)) : K → Option V :=
  kvs.foldl (fun S kv => update S kv.1 (some kv.2)) S

theorem clearAll_apply (S : K → Option V) (ks : List K) (k : K) : clearAll S ks k = if k ∈ ks then none else S k := by
  induction ks generalizing S with
  | nil => simp [clearAll]
  | cons x ks ih =>
    rw [clearAll, foldl_cons, ← clearAll, ih]
    by_cases hx : k = x
    · simp [hx]
    · simp [hx]

variable {kvs : List (K × V)}

theorem setAll_of_notMem (h : k ∉ kvs.map Prod.fst) : setAll S kvs k = S k := by
  induction kvs generalizing S with
  | nil => rfl
  | cons kv kvs ih =>
    obtain ⟨hne, hrest⟩ := not_or.mp fun hor => h (mem_cons.mpr hor)
    rw [setAll, foldl_cons, ← setAll, ih hrest, update_of_ne hne]

theorem setAll_of_mem (hnodup : (kvs.map Prod.fst).Nodup) (h : (k, v) ∈ kvs) : setAll S kvs k = some v := by
  induction kvs generalizing S with
  | nil => cases h
  | cons kv kvs ih =>
    obtain ⟨hnew, hnodup⟩ := nodup_cons.mp hnodup
    rw [setAll, foldl_cons, ← setAll]
    rcases mem_cons.mp h with rfl | h
    · rw [setAll_of_notMem hnew, update_self]
    · exact ih hnodup h

variable (h : FinitelyMany S)
include h

theorem FinitelyMany.clearAll (ks : List K) : FinitelyMany (clearAll S ks) := by
  induction ks generalizing S with
  | nil => exact h
  | cons k ks ih => exact ih (h.update k none)

theorem FinitelyMany.setAll (kvs : List (K × V)) : FinitelyMany (setAll S kvs) := by
  induction kvs generalizing S with
  | nil => exact h
  | cons kv kvs ih => exact ih (h.update kv.1 (some kv.2))

theorem total_clearAll (hnodup : (kvs.map Prod.fst).Nodup) (hmem : ∀ kv ∈ kvs, S kv.1 = some kv.2) :
    total weight (Lib.clearAll S (kvs.map Prod.fst)) + (kvs.map fun kv => weight kv.1 kv.2).sum = total weight S := by
  induction kvs generalizing S with
  | nil => simp [Lib.clearAll]
  | cons kv kvs ih =>
    obtain ⟨hnew, hnodup⟩ := nodup_cons.mp hnodup
    have hrest : ∀ other ∈ kvs, update S kv.1 none other.1 = some other.2 := by
      intro other hother
      have hne : other.1 ≠ kv.1 := fun heq => hnew (heq ▸ mem_map_of_mem hother)
      rw [update_of_ne hne, hmem other (mem_cons_of_mem _ hother)]
    have hsum := ih (h.update kv.1 none) hnodup hrest
    rw [map_cons, map_cons, sum_cons, Lib.clearAll, foldl_cons, ← Lib.clearAll,
      ← total_clear h (hmem kv (by simp)), ← hsum]
    exact (add_left_comm _ _ _).trans (add_comm _ _)

theorem total_setAll (hnodup : (kvs.map Prod.fst).Nodup) (hfree : ∀ kv ∈ kvs, S kv.1 = none) :
    total weight (Lib.setAll S kvs) = total weight S + (kvs.map fun kv => weight kv.1 kv.2).sum := by
  induction kvs generalizing S with
  | nil => simp [Lib.setAll]
  | cons kv kvs ih =>
    obtain ⟨hnew, hnodup⟩ := nodup_cons.mp hnodup
    have hrest : ∀ other ∈ kvs, update S kv.1 (some kv.2) other.1 = none := by
      intro other hother
      have hne : other.1 ≠ kv.1 := fun heq => hnew (heq ▸ mem_map_of_mem hother)
      rw [update_of_ne hne, hfree other (mem_cons_of_mem _ hother)]
    rw [Lib.setAll, foldl_cons, ← Lib.setAll, ih (h.update kv.1 _) hnodup hrest,
      total_set h (hfree kv (by simp)), map_cons, sum_cons, add_assoc]

end

include h in
theorem map_total {N : Type} [AddCommMonoid N] (φ : M →+ N) :
    φ (total weight S) = total (fun k v => φ (weight k v)) S := by
  rw [total, φ.map_finsum h.support, total]
  refine finsum_congr fun k => ?_
  cases S k <;> simp

end Lib
