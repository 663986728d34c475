import Mathlib.Data.Option.Basic
import Mathlib.Tactic.SplitIfs

/-! # Patches of an optional cell

A cell holds at most one value. A patch says which value it adds and which value it removes; it is
valid on a cell when the removed value is there and an added value finds the cell free or freed.
A valid patch that does not remove the very value it adds is determined by the content before and
after (`eq_diff_iff`), so composition and difference of patches are composition and difference of
pairs of contents (`comp_diff`, `sub_diff`).
-/

namespace Lib

/-- A change of a cell: the value it adds and the value it removes. -/
@[ext] structure Patch (E : Type) where
  add : Option E
  remove : Option E

namespace Patch
variable {E : Type}

def apply (p : Patch E) (s : Option E) : Option E :=
  match p.add with
  | some e => some e
  | none => if p.remove.isSome then none else s

structure Valid (p : Patch E) (s : Option E) : Prop where
  removed : ∀ e, p.remove = some e → s = some e
  added : p.add.isSome → s = none ∨ p.remove.isSome

def Canonical (p : Patch E) : Prop := ∀ e, p.add = some e → p.remove ≠ some e

def swap (p : Patch E) : Patch E := { add := p.remove, remove := p.add }

variable [DecidableEq E]

def diff (s t : Option E) : Patch E :=
  if s = t then { add := none, remove := none } else { add := t, remove := s }

def putUnless (x y z : Option E) : Option E := if x.isSome && !decide (y = x) then x else z

def dropIf (x y z : Option E) : Option E := if x.isSome && decide (y = x) then none else z

/-- First `p`, then `q`: a value that one adds and the other removes cancels. -/
def comp (p q : Patch E) : Patch E :=
  let remove₁ := putUnless q.remove p.add p.remove
  let add₁ := dropIf q.remove p.add p.add
  { add := putUnless q.add remove₁ add₁, remove := dropIf q.add remove₁ remove₁ }

/-- The patch from the result of `p` to the result of `q`, both on one cell. -/
def sub (p q : Patch E) : Patch E :=
  { add := putUnless q.add p.add (putUnless p.remove q.remove none)
    remove := putUnless q.remove p.remove (putUnless p.add q.add none) }

variable (s t : Option E)

theorem diff_valid : (diff s t).Valid s := by
  unfold diff
  by_cases h : s = t
  · rw [if_pos h]
    exact ⟨by simp, by simp⟩
  rw [if_neg h]
  refine ⟨fun e he => he, fun _ => ?_⟩
  cases s <;> simp

theorem diff_canonical : (diff s t).Canonical := by
  unfold diff
  by_cases h : s = t
  · rw [if_pos h]
    intro e he
    simp at he
  rw [if_neg h]
  intro e hadd hrem
  exact h (hrem.trans hadd.symm)

theorem apply_diff : (diff s t).apply s = t := by
  unfold diff
  by_cases h : s = t
  · rw [if_pos h]
    simpa [apply] using h
  rw [if_neg h]
  cases t with
  | some e => rfl
  | none =>
    cases s with
    | none => exact absurd rfl h
    | some e => rfl

theorem eq_diff {p : Patch E} {s : Option E} (hv : p.Valid s) (hc : p.Canonical) : p = diff s (p.apply s) := by
  obtain ⟨a, r⟩ := p
  obtain ⟨hrem, hadd⟩ := hv
  cases r with
  | none =>
    cases a with
    | none => simp [diff, apply]
    | some e =>
      have hs : s = none := by simpa using hadd rfl
      simp [diff, apply, hs]
  | some f =>
    have hs := hrem f rfl
    cases a with
    | none => simp [diff, apply, hs]
    | some e =>
      have hne : f ≠ e := by
        intro h
        subst h
        exact hc f rfl rfl
      simp [diff, apply, hs, hne]

theorem eq_diff_iff (p : Patch E) (s : Option E) : p.Valid s ∧ p.Canonical ↔ p = diff s (p.apply s) := by
  constructor
  · rintro ⟨hv, hc⟩
    exact eq_diff hv hc
  intro h
  rw [h]
  exact ⟨diff_valid s _, diff_canonical s _⟩

theorem swap_diff : (diff s t).swap = diff t s := by
  unfold diff swap
  by_cases h : s = t
  · simp [h]
  · simp [h, Ne.symm h]

variable (u : Option E)

theorem comp_diff : comp (diff s t) (diff t u) = diff s u := by
  unfold comp diff putUnless dropIf
  by_cases hst : s = t
  · subst hst
    by_cases hsu : s = u
    · simp [hsu]
    · cases s <;> cases u <;> simp_all
  by_cases htu : t = u
  · subst htu
    simp [hst]
  by_cases hsu : s = u
  · subst hsu
    cases s <;> cases t <;> simp_all
  · cases s <;> cases t <;> cases u <;> simp_all

theorem sub_diff : sub (diff s t) (diff s u) = diff t u := by
  unfold sub diff putUnless
  by_cases hst : s = t
  · subst hst
    by_cases hsu : s = u
    · simp [hsu]
    · cases s <;> cases u <;> simp_all
  by_cases hsu : s = u
  · subst hsu
    cases s <;> cases t <;> simp_all [eq_comm]
  by_cases htu : t = u
  · subst htu
    cases s <;> cases t <;> simp_all
  have hut : u ≠ t := fun h => htu h.symm
  cases s <;> cases t <;> cases u <;> simp_all

theorem of_add {s t : Option E} {e : E} (h : (diff s t).add = some e) :
    t = some e ∧ s ≠ some e ∧ (diff s t).remove = s := by
  unfold diff at *
  by_cases hst : s = t
  · rw [if_pos hst] at h
    cases h
  rw [if_neg hst] at h ⊢
  have ht := h
  exact ⟨ht, fun hs => hst (hs.trans ht.symm), rfl⟩

theorem of_remove {s t : Option E} {e : E} (h : (diff s t).remove = some e) :
    s = some e ∧ t ≠ some e ∧ (diff s t).add = t := by
  rw [← swap_diff t s] at h
  obtain ⟨hs, ht, hrem⟩ := of_add h
  refine ⟨hs, ht, ?_⟩
  rw [← swap_diff t s]
  exact hrem

/-! ## Two patches of one cell -/

variable {E : Type} {p q : Patch E}

/-- Both patches add one value, and only one of them removes a value first: their cells differ. -/
structure Clash (p q : Patch E) : Prop where
  added : p.add.isSome
  same : q.add = p.add
  removed : p.remove.isSome ≠ q.remove.isSome

/-- A value that one removes and the other adds differ, and one of the two is added by both or
removed by both; and no two values are removed. -/
structure Accepts (p q : Patch E) : Prop where
  removedAdded : ∀ e e', p.remove = some e → q.add = some e' → e' ≠ e ∧ (p.add = some e' ∨ q.remove = some e)
  addedRemoved : ∀ e e', p.add = some e → q.remove = some e' → e' ≠ e ∧ (p.remove = some e' ∨ q.add = some e)
  removedTwice : ∀ e e', p.remove = some e → q.remove = some e' → e = e'

theorem valid_of_remove {e : E} (h : p.remove = some e) : p.Valid (some e) := by
  constructor
  · intro e' he'
    rw [← h, he']
  intro _
  exact .inr (by rw [h]; rfl)

theorem valid_of_none (hr : p.remove = none) (ha : p.add = none) (s : Option E) : p.Valid s := by
  constructor
  · intro e he
    rw [hr] at he
    cases he
  intro h
  rw [ha] at h
  cases h

theorem valid_none (hr : p.remove = none) : p.Valid none := by
  constructor
  · intro e he
    rw [hr] at he
    cases he
  · intro _
    exact .inl rfl

variable {s : Option E}

theorem Valid.remove_of_add (h : p.Valid s) (ha : p.add.isSome) : p.remove = s := by
  cases hr : p.remove with
  | some e => exact (h.removed e hr).symm
  | none =>
    have hs := h.added ha
    simp only [hr, Option.isSome_none, Bool.false_eq_true, or_false] at hs
    exact hs.symm

theorem not_clash_of_valid (hp : p.Valid s) (hq : q.Valid s) : ¬ p.Clash q := by
  intro h
  apply h.removed
  rw [hp.remove_of_add h.added, hq.remove_of_add (by rw [h.same]; exact h.added)]

theorem Accepts.valid_or_clash (h : p.Accepts q) : (∃ s, p.Valid s ∧ q.Valid s) ∨ p.Clash q := by
  cases hr : p.remove with
  | none =>
    cases hr' : q.remove with
    | none => exact .inl ⟨none, valid_none hr, valid_none hr'⟩
    | some e' =>
      cases ha : p.add with
      | none => exact .inl ⟨some e', valid_of_none hr ha _, valid_of_remove hr'⟩
      | some e =>
        have hq : q.add = some e := by simpa [hr] using (h.addedRemoved e e' ha hr').2
        exact .inr ⟨by rw [ha]; rfl, by rw [hq, ha], by simp [hr, hr']⟩
  | some e =>
    cases hr' : q.remove with
    | some e' =>
      obtain rfl := h.removedTwice e e' hr hr'
      exact .inl ⟨some e, valid_of_remove hr, valid_of_remove hr'⟩
    | none =>
      cases ha : q.add with
      | none => exact .inl ⟨some e, valid_of_remove hr, valid_of_none hr' ha _⟩
      | some e' =>
        have hp : p.add = some e' := by simpa [hr'] using (h.removedAdded e e' hr ha).2
        exact .inr ⟨by rw [hp]; rfl, by rw [hp, ha], by simp [hr, hr']⟩

theorem accepts_of_valid (hp : p.Canonical) (hq : q.Canonical) (hvp : p.Valid s) (hvq : q.Valid s) : p.Accepts q := by
  constructor
  · intro e e' he he'
    have hrem : q.remove = some e := by
      rw [hvq.remove_of_add (by rw [he']; rfl), hvp.removed e he]
    refine ⟨fun heq => hq e' he' (heq ▸ hrem), .inr hrem⟩
  · intro e e' he he'
    have hrem : p.remove = some e' := by
      rw [hvp.remove_of_add (by rw [he]; rfl), hvq.removed e' he']
    refine ⟨fun heq => hp e he (heq ▸ hrem), .inl hrem⟩
  · intro e e' he he'
    have heq := (hvp.removed e he).symm.trans (hvq.removed e' he')
    exact Option.some.inj heq

theorem accepts_of_clash (hp : p.Canonical) (hq : q.Canonical) (h : p.Clash q) : p.Accepts q := by
  constructor
  · intro e e' he he'
    have hadd := h.same ▸ he'
    exact ⟨fun heq => hp e' hadd (heq ▸ he), .inl hadd⟩
  · intro e e' he he'
    have hadd := h.same.trans he
    exact ⟨fun heq => hq e hadd (heq ▸ he'), .inr hadd⟩
  · intro e e' he he'
    exact absurd (by rw [he, he']; rfl) h.removed

end Patch
end Lib
