import Mathlib.Data.List.Forall2

/-! # Fallible computations

How a computation that may fail returns a value, step by step.
-/

namespace Lib
open List

variable {ε α β : Type} {r : Except ε α}

@[simp] theorem ok_bind (a : α) (f : α → Except ε β) : (Except.ok a >>= f) = f a := (rfl)

@[simp] theorem error_bind (e : ε) (f : α → Except ε β) : (Except.error e >>= f) = .error e := (rfl)

theorem bind_eq_ok {f : α → Except ε β} {b : β} : (r >>= f) = .ok b ↔ ∃ a, r = .ok a ∧ f a = .ok b := by
  cases r with
  | error e => simp
  | ok a => simp

theorem mapError_eq_ok {ε' : Type} {f : ε → ε'} {a : α} : r.mapError f = .ok a ↔ r = .ok a := by
  cases r <;> simp [Except.mapError]

theorem mapM_eq_ok {f : α → Except ε β} {l : List α} {l' : List β} :
    l.mapM f = .ok l' ↔ List.Forall₂ (fun a b => f a = .ok b) l l' := by
  induction l generalizing l' with
  | nil =>
    rw [mapM_nil, forall₂_nil_left_iff]
    exact ⟨fun h => (Except.ok.inj h).symm, fun h => h ▸ rfl⟩
  | cons a l ih =>
    rw [mapM_cons, forall₂_cons_left_iff, bind_eq_ok]
    constructor
    · rintro ⟨b, hb, h⟩
      obtain ⟨rest, hrest, h⟩ := bind_eq_ok.mp h
      exact ⟨b, rest, hb, ih.mp hrest, (Except.ok.inj h).symm⟩
    · rintro ⟨b, rest, hb, hrest, rfl⟩
      exact ⟨b, hb, bind_eq_ok.mpr ⟨rest, ih.mpr hrest, rfl⟩⟩

/-- A fold whose every step asks for `P` as well. -/
theorem foldlM_eq_ok_iff {f f' : β → α → Except ε β} {P : α → Prop}
    (h : ∀ b a c, f' b a = .ok c ↔ f b a = .ok c ∧ P a) (l : List α) (b c : β) :
    l.foldlM f' b = .ok c ↔ l.foldlM f b = .ok c ∧ ∀ a ∈ l, P a := by
  induction l generalizing b with
  | nil => simp
  | cons a l ih =>
    simp only [foldlM_cons, bind_eq_ok, h, ih, forall_mem_cons]
    constructor
    · rintro ⟨b', ⟨hf, ha⟩, hrest, hl⟩
      exact ⟨⟨b', hf, hrest⟩, ha, hl⟩
    · rintro ⟨⟨b', hf, hrest⟩, ha, hl⟩
      exact ⟨b', ⟨hf, ha⟩, hrest, hl⟩

end Lib
