import Mathlib.Data.Set.Card

/-! # Directed acyclic graphs and anticones

Reachability along edges that raise a rank, and counting in an anticone. A node is in the anticone
of another one when neither is below the other.
-/

namespace Lib.Dag
open List

variable {α : Type}

/-! ## Reachability -/

section
variable {edge : α → α → Prop} {rank : α → ℕ} (hrank : ∀ p c, edge p c → rank p < rank c) {a b : α}
include hrank

variable (h : Relation.ReflTransGen edge a b)
include h

theorem rank_le_of_reaches : rank a ≤ rank b := by
  induction h with
  | refl => exact le_rfl
  | tail _ hedge ih => exact ih.trans (hrank _ _ hedge).le

theorem rank_lt_of_reaches (hne : a ≠ b) : rank a < rank b := by
  obtain rfl | ⟨c, hac, hcb⟩ := Relation.ReflTransGen.cases_tail h
  · exact absurd rfl hne
  · exact (rank_le_of_reaches hrank hac).trans_lt (hrank _ _ hcb)

theorem reaches_antisymm (h' : Relation.ReflTransGen edge b a) : a = b := by
  by_contra hne
  have hlt := rank_lt_of_reaches hrank h hne
  have hle := rank_le_of_reaches hrank h'
  omega

end

/-! ## Anticones -/

def anticone (le : α → α → Prop) (b : α) : Set α := {a | ¬ le a b ∧ ¬ le b a}

def anticoneCount (le : α → α → Bool) (l : List α) (b : α) : ℕ :=
  l.countP fun a => !le a b && !le b a

variable {le : α → α → Bool} {l l' : List α} {a b c : α}

theorem anticoneCount_perm (h : l.Perm l') (b : α) : anticoneCount le l b = anticoneCount le l' b :=
  h.countP_eq _

theorem anticoneCount_snoc (b c : α) : anticoneCount le (l ++ [c]) b =
    anticoneCount le l b + if !le c b && !le b c then 1 else 0 := by
  simp [anticoneCount, countP_append, countP_singleton]

theorem anticoneCount_le_filter (c : α) : anticoneCount le l c ≤ (l.filter fun a => !le a c).length := by
  rw [← countP_eq_length_filter]
  exact countP_mono_left fun a _ h => by simp_all

theorem anticoneCount_eq_filter (h : ∀ a ∈ l, le c a = false) :
    anticoneCount le l c = (l.filter fun a => !le a c).length := by
  rw [← countP_eq_length_filter]
  refine countP_congr fun a ha => ?_
  simp [h a ha]

theorem anticoneCount_eq_zero (h : ∀ a ∈ l, le a b = true) : anticoneCount le l b = 0 := by
  refine countP_eq_zero.mpr fun a ha => ?_
  simp [h a ha]

theorem anticoneCount_filter_of_below (h : ∀ a ∈ l, le a b = true) (l' : List α) :
    anticoneCount le (l ++ l') b = anticoneCount le l' b := by
  have hzero := anticoneCount_eq_zero h
  unfold anticoneCount at *
  rw [countP_append, hzero, Nat.zero_add]

theorem encard_anticone [DecidableEq α] {lt : α → α → Prop} (hnodup : l.Nodup)
    (hle : ∀ a ∈ l, (le a b = true ↔ lt a b) ∧ (le b a = true ↔ lt b a)) :
    ({a | a ∈ l} ∩ anticone lt b).encard = anticoneCount le l b := by
  have hset : {a | a ∈ l} ∩ anticone lt b = ((l.filter fun a => !le a b && !le b a).toFinset : Set α) := by
    ext a
    simp only [anticone, Set.mem_inter_iff, Set.mem_ofPred_eq, coe_toFinset, mem_filter,
      Bool.and_eq_true, Bool.not_eq_true']
    refine and_congr_right fun ha => ?_
    rw [← (hle a ha).1, ← (hle a ha).2, Bool.not_eq_true, Bool.not_eq_true]
  rw [hset, Set.encard_coe_eq_coe_finsetCard, toFinset_card_of_nodup (hnodup.filter _),
    ← countP_eq_length_filter]
  rfl

end Lib.Dag
