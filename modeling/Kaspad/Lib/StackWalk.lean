import Mathlib.Data.List.Nodup
import Mathlib.Data.List.Pairwise
import Mathlib.Data.List.Perm.Subperm

/-! # Depth-first walks without a visited set

A walk takes a node from its stack, and pushes and reports the children of the node. The walk reports
every node once exactly if the nodes below its start form a tree.
-/

namespace Lib.StackWalk
open List

variable {α : Type} (children : α → List α)

def walk : ℕ → List α → List α → Option (List α)
  | _, [], acc => some acc
  | 0, _ :: _, _ => none
  | rounds + 1, current :: stack, acc =>
    walk rounds ((children current).reverse ++ stack) (acc ++ children current)

def Below : α → α → Prop := Relation.TransGen fun p c => c ∈ children p

/-- The nodes below `root` form a tree: none of them is the root, and none is listed twice. -/
structure Tree (root : α) : Prop where
  acyclic : ¬ Below children root root
  nodup : ∀ p, p = root ∨ Below children root p → (children p).Nodup
  disjoint : ∀ p q, p = root ∨ Below children root p → q = root ∨ Below children root q → p ≠ q →
    (children p).Disjoint (children q)

variable {children} {root : α} {l : List α}

theorem below_child {p c : α} (hp : p = root ∨ Below children root p) (hc : c ∈ children p) :
    Below children root c := by
  rcases hp with rfl | hp
  · exact .single hc
  · exact .tail hp hc

/-! ## What a finished walk has done -/

variable {rounds : ℕ} {stack acc : List α}

theorem walk_spec (h : walk children rounds stack acc = some l) :
    ∃ taken : List α, l = acc ++ taken.flatMap children ∧ taken.Perm (stack ++ taken.flatMap children) ∧
      ∀ x ∈ taken, ∃ s ∈ stack, x = s ∨ Below children s x := by
  induction rounds generalizing stack acc with
  | zero =>
    cases stack with
    | nil => exact ⟨[], by simpa [walk] using h.symm, by simp, by simp⟩
    | cons => simp [walk] at h
  | succ rounds ih =>
    cases stack with
    | nil => exact ⟨[], by simpa [walk] using h.symm, by simp, by simp⟩
    | cons current stack =>
      obtain ⟨taken, hl, hperm, htaken⟩ := ih h
      refine ⟨current :: taken, by simp [hl], ?_, ?_⟩
      · rw [flatMap_cons, cons_append]
        refine (hperm.trans ?_).cons current
        have hreverse := (children current).reverse_perm.append_right (stack ++ taken.flatMap children)
        refine (append_assoc _ _ _ ▸ hreverse).trans ?_
        exact perm_append_comm_assoc _ _ _
      intro x hx
      rcases mem_cons.mp hx with rfl | hx
      · exact ⟨x, by simp, .inl rfl⟩
      obtain ⟨s, hs, hxs⟩ := htaken x hx
      rcases mem_append.mp hs with hs | hs
      · refine ⟨current, by simp, .inr ?_⟩
        have hstep : Below children current s := .single (mem_reverse.mp hs)
        rcases hxs with rfl | hxs
        · exact hstep
        · exact hstep.trans hxs
      · exact ⟨s, mem_cons_of_mem _ hs, hxs⟩

variable (h : walk children rounds [root] [] = some l)
include h

theorem walk_root :
    (∃ taken : List α, l = taken.flatMap children ∧ taken.Perm (root :: l)) ∧ ∀ x, x ∈ l ↔ Below children root x := by
  obtain ⟨taken, hl, hperm, htaken⟩ := walk_spec h
  rw [nil_append] at hl
  rw [← hl, singleton_append] at hperm
  have hroot : ∀ x ∈ taken, x = root ∨ Below children root x := fun x hx => by
    obtain ⟨s, hs, hxs⟩ := htaken x hx
    obtain rfl := mem_singleton.mp hs
    exact hxs
  refine ⟨⟨taken, hl, hperm⟩, fun x => ⟨fun hx => ?_, fun hx => ?_⟩⟩
  · rw [hl] at hx
    obtain ⟨p, hp, hx⟩ := mem_flatMap.mp hx
    exact below_child (hroot p hp) hx
  -- Along the path, every node is a child of one that was taken.
  have hchild : ∀ p ∈ root :: l, ∀ c ∈ children p, c ∈ l := fun p hp c hc =>
    hl ▸ mem_flatMap.mpr ⟨p, hperm.mem_iff.mpr hp, hc⟩
  induction hx with
  | single hc => exact hchild root (by simp) _ hc
  | tail _ hc ih => exact hchild _ (mem_cons_of_mem _ ih) _ hc

theorem tree_of_walk (hnodup : l.Nodup) : Tree children root := by
  obtain ⟨⟨taken, hl, hperm⟩, hmem⟩ := walk_root h
  have htaken : ∀ p, p = root ∨ Below children root p → p ∈ taken := fun p hp =>
    hperm.mem_iff.mpr (mem_cons.mpr (hp.imp_right (hmem p).mpr))
  have hflat := hl ▸ hnodup
  obtain ⟨hchildren, hpairwise⟩ := nodup_flatMap.mp hflat
  refine ⟨fun hroot => ?_, fun p hp => hchildren p (htaken p hp), fun p q hp hq hne => ?_⟩
  · -- The root is taken at the start, and a second time if it is below itself.
    have hp := (hperm.pairwise_iff fun {x y} hxy => disjoint_symm hxy).mp hpairwise
    have hself := (pairwise_cons.mp hp).1 root ((hmem root).mpr hroot)
    obtain ⟨c, hc, -⟩ := Relation.TransGen.head'_iff.mp hroot
    exact hself hc hc
  · have hsymm : Std.Symm (Function.onFun List.Disjoint children) := ⟨fun _ _ h => disjoint_symm h⟩
    exact hpairwise.forall (htaken p hp) (htaken q hq) hne

omit h

/-! ## Walks over trees -/

/-- The nodes `taken` so far and the stack are the root and the reported nodes, all different. -/
structure Walking (children : α → List α) (root : α) (taken stack acc : List α) : Prop where
  perm : (root :: acc).Perm (taken ++ stack)
  reported : acc = taken.flatMap children
  nodup : (root :: acc).Nodup
  below : ∀ x ∈ acc, Below children root x

variable {taken : List α}

theorem Walking.step (htree : Tree children root) {current : α}
    (hw : Walking children root taken (current :: stack) acc) :
    Walking children root (taken ++ [current]) ((children current).reverse ++ stack) (acc ++ children current) := by
  have hin : ∀ x ∈ taken ++ current :: stack, x = root ∨ Below children root x := fun x hx => by
    rcases mem_cons.mp (hw.perm.mem_iff.mpr hx) with rfl | hx
    · exact .inl rfl
    · exact .inr (hw.below x hx)
  have hcurrent := hin current (by simp)
  have hnodup := hw.perm.nodup_iff.mp hw.nodup
  refine ⟨?_, by simp [hw.reported], ?_, ?_⟩
  · have hreverse := (children current).reverse_perm.symm
    refine (hw.perm.append hreverse).trans ?_
    rw [append_assoc, append_assoc, cons_append, singleton_append]
    exact (perm_append_comm.cons _).append_left _
  · rw [← cons_append]
    refine List.Nodup.append hw.nodup (htree.nodup current hcurrent) fun x hx hc => ?_
    rcases mem_cons.mp hx with rfl | hx
    · exact htree.acyclic (below_child hcurrent hc)
    rw [hw.reported] at hx
    obtain ⟨p, hp, hx⟩ := mem_flatMap.mp hx
    have hne : p ≠ current := fun h => by
      rw [h] at hp
      exact disjoint_of_nodup_append hnodup hp (by simp)
    exact htree.disjoint p current (hin p (by simp [hp])) hcurrent hne hx hc
  · intro x hx
    rcases mem_append.mp hx with hx | hx
    · exact hw.below x hx
    · exact below_child hcurrent hx

variable {all : List α}

theorem walk_tree (htree : Tree children root) (hall : ∀ x, Below children root x → x ∈ all) {n : ℕ}
    (hw : Walking children root taken stack acc) (hn : all.length + 1 ≤ n + taken.length) :
    ∃ l, walk children n stack acc = some l ∧ l.Nodup := by
  induction n generalizing taken stack acc with
  | zero =>
    have hlength := hw.perm.length_eq
    have hle := (subperm_of_subset (nodup_cons.mp hw.nodup).2 fun x hx =>
      hall x (hw.below x hx)).length_le
    simp only [length_cons, length_append] at hlength
    obtain rfl : stack = [] := length_eq_zero_iff.mp (by omega)
    exact ⟨acc, rfl, (nodup_cons.mp hw.nodup).2⟩
  | succ n ih =>
    cases stack with
    | nil => exact ⟨acc, rfl, (nodup_cons.mp hw.nodup).2⟩
    | cons current stack =>
      apply ih (hw.step htree)
      rw [length_append, length_singleton]
      omega

theorem walk_nodup_iff (hall : ∀ x, Below children root x → x ∈ all) :
    (∃ l, walk children (all.length + 1) [root] [] = some l ∧ l.Nodup) ↔ Tree children root := by
  constructor
  · rintro ⟨l, h, hnodup⟩
    exact tree_of_walk h hnodup
  intro htree
  exact walk_tree htree hall (⟨by simp, rfl, by simp, by simp⟩ : Walking children root [] _ _) (by simp)

end Lib.StackWalk
