import Kaspad.Lib.Meets

/-! # Iterators with a first and a next item

An iterator moves with `first` and `next`, which say whether there is an item, and reads the item with
`get`. `Enumerates` says which list an iterator runs through; an iterator that has ended stays ended.
-/

namespace Lib

structure Iterator (ε σ α : Type) where
  first : σ → Except ε (Bool × σ)
  next : σ → Except ε (Bool × σ)
  get : σ → Except ε α

namespace Iterator
variable {ε σ α : Type} (it : Iterator ε σ α)

def Ended (s : σ) : Prop :=
  ∃ P : σ → Prop, P s ∧ ∀ s, P s → ∃ s', it.next s = .ok (false, s') ∧ P s'

inductive Ahead : σ → List α → Prop
  | ended {s : σ} : it.Ended s → Ahead s []
  | next {s s' : σ} {x : α} {l : List α} :
      it.next s = .ok (true, s') → it.get s' = .ok x → Ahead s' l → Ahead s (x :: l)

/-- From this state the iterator gives these elements and ends. -/
inductive Enumerates : σ → List α → Prop
  | empty {s s' : σ} : it.first s = .ok (false, s') → it.Ended s' → Enumerates s []
  | first {s s' : σ} {x : α} {l : List α} :
      it.first s = .ok (true, s') → it.get s' = .ok x → it.Ahead s' l → Enumerates s (x :: l)

/-- The items of the calls `move`, `next`, `next`, … until one of them is false, the given number of
calls at most. -/
def collect (move : σ → Except ε (Bool × σ)) : ℕ → σ → Except ε (Option (List α))
  | 0, _ => .ok none
  | n + 1, s => do
    let (more, s) ← move s
    if more then
      let x ← it.get s
      let rest ← collect it.next n s
      return rest.map (x :: ·)
    else
      return some []

/-- `for ok := it.First(); ok; ok = it.Next() { … it.Get() … }`. -/
def drive : ℕ → σ → Except ε (Option (List α)) := it.collect it.first

variable {it} {s : σ} {l : List α} {move : σ → Except ε (Bool × σ)} {n : ℕ}

theorem Ended.next (h : it.Ended s) : ∃ s', it.next s = .ok (false, s') ∧ it.Ended s' := by
  obtain ⟨P, hs, hP⟩ := h
  obtain ⟨s', hs', hP'⟩ := hP s hs
  exact ⟨s', hs', P, hP', hP⟩

theorem Ahead.enumerates {s' : σ} (h : it.Ahead s' l) (hfirst : it.first s = it.next s') : it.Enumerates s l := by
  cases h with
  | ended hended =>
    obtain ⟨t, ht, hended'⟩ := hended.next
    exact .empty (hfirst.trans ht) hended'
  | next hnext hget hahead => exact .first (hfirst.trans hnext) hget hahead

theorem collect_succ {s' : σ} {x : α} (hmove : move s = .ok (true, s')) (hget : it.get s' = .ok x)
    (hrest : it.collect it.next n s' = .ok (some l)) : it.collect move (n + 1) s = .ok (some (x :: l)) := by
  simp [collect, hmove, hget, hrest, pure, Except.pure]

theorem collect_end {s' : σ} (hmove : move s = .ok (false, s')) : it.collect move (n + 1) s = .ok (some []) := by
  simp [collect, hmove, pure, Except.pure]

theorem Ahead.collect (h : it.Ahead s l) (hn : l.length ≤ n) : it.collect it.next (n + 1) s = .ok (some l) := by
  induction h generalizing n with
  | ended hended =>
    obtain ⟨s', hs', -⟩ := hended.next
    exact collect_end hs'
  | next hnext hget _ ih =>
    obtain ⟨n, rfl⟩ := Nat.exists_eq_add_of_le' hn
    exact collect_succ hnext hget (ih (Nat.le_add_left _ n))

theorem Enumerates.drive (h : it.Enumerates s l) (hn : l.length ≤ n) : it.drive (n + 1) s = .ok (some l) := by
  cases h with
  | empty hfirst _ => exact collect_end hfirst
  | first hfirst hget hahead =>
    obtain ⟨n, rfl⟩ := Nat.exists_eq_add_of_le' hn
    exact collect_succ hfirst hget (hahead.collect (Nat.le_add_left _ n))

end Iterator
end Lib
