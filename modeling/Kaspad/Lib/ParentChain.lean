import Kaspad.Lib.Dag

/-! # Chains of parents

Every node has at most one parent, so the nodes above a node form a chain. `OnChain a b` says that
`a` is `b` or one of the nodes above it, and `Descent c l a` that the walk from `c` to its parent, to
the parent of that, and so on, visits the nodes of `l` and then stands at `a`. A rank that falls
along the walk makes the chain a linear order.
-/

namespace Lib.ParentChain
open List

variable {α : Type} (parent : α → Option α)

def OnChain : α → α → Prop := Relation.ReflTransGen fun p c => parent c = some p

/-- The elements on the way from `c` to its ancestor `a`, without `a`. -/
def Descent (c : α) : List α → α → Prop
  | [], a => c = a
  | x :: l, a => x = c ∧ ∃ p, parent c = some p ∧ Descent p l a

variable {parent} {a b c p : α} {l l' : List α}

theorem onChain_step (h : parent c = some p) (hap : OnChain parent a p) : OnChain parent a c :=
  Relation.ReflTransGen.tail hap h

theorem onChain_iff (h : parent c = some p) : OnChain parent a c ↔ a = c ∨ OnChain parent a p := by
  constructor
  · intro hac
    obtain heq | ⟨q, haq, hq⟩ := Relation.ReflTransGen.cases_tail hac
    · exact .inl heq.symm
    obtain rfl : q = p := by simpa [h] using hq.symm
    exact .inr haq
  · rintro (rfl | hap)
    · exact .refl
    · exact onChain_step h hap

theorem onChain_of_none (h : parent c = none) (hac : OnChain parent a c) : a = c := by
  obtain heq | ⟨q, -, hq⟩ := Relation.ReflTransGen.cases_tail hac
  · exact heq.symm
  · simp [h] at hq

theorem OnChain.total (ha : OnChain parent a c) (hb : OnChain parent b c) :
    OnChain parent a b ∨ OnChain parent b a := by
  induction ha with
  | refl => exact .inr hb
  | @tail p c hap hpc ih =>
    rcases (onChain_iff hpc).mp hb with rfl | hbp
    · exact .inl (onChain_step hpc hap)
    · exact ih hbp

/-! ## Descents -/

theorem Descent.onChain (h : Descent parent c l a) : OnChain parent a c := by
  induction l generalizing c with
  | nil => exact h ▸ .refl
  | cons x l ih =>
    obtain ⟨-, p, hp, hrest⟩ := h
    exact onChain_step hp (ih hrest)

theorem Descent.mem_or_onChain {x : α} (h : Descent parent c l a) (hx : OnChain parent x c) :
    x ∈ l ∨ OnChain parent x a := by
  induction l generalizing c with
  | nil => exact .inr ((h : c = a) ▸ hx)
  | cons y l ih =>
    obtain ⟨rfl, p, hp, hrest⟩ := h
    rcases (onChain_iff hp).mp hx with rfl | hxp
    · exact .inl mem_cons_self
    · exact (ih hrest hxp).imp_left (mem_cons_of_mem _)

theorem Descent.append (h : Descent parent c l b) (h' : Descent parent b l' a) : Descent parent c (l ++ l') a := by
  induction l generalizing c with
  | nil =>
    obtain rfl : c = b := h
    exact h'
  | cons x l ih =>
    obtain ⟨hx, p, hp, hrest⟩ := h
    exact ⟨hx, p, hp, ih hrest⟩

theorem Descent.unique (hroot : parent a = none) (h : Descent parent c l a)
    (h' : Descent parent c l' a) : l = l' := by
  induction l generalizing c l' with
  | nil =>
    obtain rfl : c = a := h
    cases l' with
    | nil => rfl
    | cons x l' =>
      obtain ⟨-, p, hp, -⟩ := h'
      simp [hroot] at hp
  | cons x l ih =>
    obtain ⟨rfl, p, hp, hrest⟩ := h
    cases l' with
    | nil =>
      obtain rfl : x = a := h'
      simp [hroot] at hp
    | cons y l' =>
      obtain ⟨rfl, q, hq, hrest'⟩ := h'
      obtain rfl : p = q := by simpa [hp] using hq
      rw [ih hrest hrest']

theorem exists_descent (h : OnChain parent a c) : ∃ l, Descent parent c l a := by
  induction h with
  | refl => exact ⟨[], rfl⟩
  | @tail p c _ hpc ih =>
    obtain ⟨l, hl⟩ := ih
    exact ⟨c :: l, rfl, p, hpc, hl⟩

theorem Descent.of_mem {x : α} (h : Descent parent c l a) (hx : x ∈ l) :
    ∃ l₁ l₂, l = l₁ ++ x :: l₂ ∧ Descent parent c l₁ x ∧ Descent parent x (x :: l₂) a := by
  induction l generalizing c with
  | nil => cases hx
  | cons y l ih =>
    obtain ⟨rfl, p, hp, hrest⟩ := h
    rcases mem_cons.mp hx with rfl | hx
    · exact ⟨[], l, rfl, rfl, rfl, p, hp, hrest⟩
    obtain ⟨l₁, l₂, rfl, h₁, h₂⟩ := ih hrest hx
    exact ⟨y :: l₁, l₂, rfl, ⟨rfl, p, hp, h₁⟩, h₂⟩

theorem Descent.length_lt (hroot : parent a = none) {x : α} (h : Descent parent c l a) (hx : x ∈ l) (hne : x ≠ c)
    (h' : Descent parent x l' a) : l'.length < l.length := by
  obtain ⟨l₁, l₂, rfl, h₁, h₂⟩ := h.of_mem hx
  obtain rfl := h₂.unique hroot h'
  cases l₁ with
  | nil => exact absurd h₁.symm hne
  | cons y l₁ =>
    simp only [length_append, length_cons]
    omega

theorem Descent.nodup_of_root (hroot : parent a = none) (h : Descent parent c l a) : l.Nodup := by
  induction l generalizing c with
  | nil => exact nodup_nil
  | cons y l ih =>
    have hwalk := h
    obtain ⟨rfl, p, hp, hrest⟩ := h
    refine nodup_cons.mpr ⟨fun hy => ?_, ih hrest⟩
    obtain ⟨l₁, l₂, heq, -, h₂⟩ := hrest.of_mem hy
    have hsame := congrArg List.length (h₂.unique hroot hwalk)
    have hlen := congrArg List.length heq
    simp only [length_append, length_cons] at hsame hlen
    omega

theorem Descent.first {P : α → Prop} (h : Descent parent c l a) (ha : P a) :
    ∃ b l', Descent parent c l' b ∧ P b ∧ ∀ x ∈ l', ¬ P x := by
  induction l generalizing c with
  | nil => exact ⟨c, [], rfl, (h : c = a) ▸ ha, by simp⟩
  | cons x l ih =>
    obtain ⟨rfl, p, hp, hrest⟩ := h
    by_cases hx : P x
    · exact ⟨x, [], rfl, hx, by simp⟩
    obtain ⟨b, l', hl', hb, hno⟩ := ih hrest
    exact ⟨b, x :: l', ⟨rfl, p, hp, hl'⟩, hb, forall_mem_cons.mpr ⟨hx, hno⟩⟩

variable {rank : α → ℕ} (hrank : ∀ c p, parent c = some p → rank p < rank c)
include hrank

theorem OnChain.rank_le (h : OnChain parent a b) : rank a ≤ rank b :=
  Dag.rank_le_of_reaches (fun p c => hrank c p) h

theorem OnChain.rank_lt (h : OnChain parent a b) (hne : a ≠ b) : rank a < rank b :=
  Dag.rank_lt_of_reaches (fun p c => hrank c p) h hne

theorem OnChain.eq_of_rank_le (h : OnChain parent a b) (hle : rank b ≤ rank a) : a = b := by
  by_contra hne
  have := h.rank_lt hrank hne
  omega

theorem OnChain.of_rank_le (ha : OnChain parent a c) (hb : OnChain parent b c)
    (hle : rank a ≤ rank b) : OnChain parent a b := by
  rcases ha.total hb with h | h
  · exact h
  obtain rfl := h.eq_of_rank_le hrank hle
  exact .refl

variable (h : Descent parent c l a)
include h

theorem Descent.mem {x : α} (hx : x ∈ l) : OnChain parent x c ∧ OnChain parent a x ∧ rank a < rank x := by
  induction l generalizing c with
  | nil => simp at hx
  | cons y l ih =>
    have hac := h.onChain
    obtain ⟨rfl, p, hp, hrest⟩ := h
    rcases mem_cons.mp hx with rfl | hx
    · have hle := (hrest.onChain).rank_le hrank
      have hlt := hrank x p hp
      exact ⟨.refl, hac, by omega⟩
    · obtain ⟨hxp, hax, hlt⟩ := ih hrest hx
      exact ⟨onChain_step hp hxp, hax, hlt⟩

theorem Descent.length_le : l.length + rank a ≤ rank c := by
  induction l generalizing c with
  | nil => simp [show c = a from h]
  | cons x l ih =>
    obtain ⟨rfl, p, hp, hrest⟩ := h
    have hle := ih hrest
    have hlt := hrank x p hp
    simp only [length_cons]
    omega

theorem Descent.nodup : l.Nodup := by
  induction l generalizing c with
  | nil => exact nodup_nil
  | cons y l ih =>
    obtain ⟨rfl, p, hp, hrest⟩ := h
    refine nodup_cons.mpr ⟨fun hy => ?_, ih hrest⟩
    have hle := (hrest.mem hrank hy).1.rank_le hrank
    have hlt := hrank y p hp
    omega

end Lib.ParentChain
