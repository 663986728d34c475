import Mathlib.Data.List.Basic

/-! # Interleavings

Processes that take turns. A schedule lists the moves that are tried, and a move that is not enabled is skipped.
-/

namespace Lib.Schedule

variable {S M : Type} {step : M → S → Option S}

def run (step : M → S → Option S) (s : S) (schedule : List M) : S :=
  schedule.foldl (fun s move => (step move s).getD s) s

theorem run_preserves {P : S → Prop} (h : ∀ {move s s'}, P s → step move s = some s' → P s') {s : S} (hs : P s)
    (schedule : List M) : P (run step s schedule) := by
  induction schedule generalizing s with
  | nil => exact hs
  | cons move schedule ih =>
    cases hstep : step move s with
    | none => simpa [run, hstep] using ih hs
    | some s' => simpa [run, hstep] using ih (h hs hstep)

theorem run_append (step : M → S → Option S) (s : S) (before after : List M) :
    run step s (before ++ after) = run step (run step s before) after := List.foldl_append

theorem run_cons_of_step {s s' : S} {move : M} (hstep : step move s = some s') (schedule : List M) :
    run step s (move :: schedule) = run step s' schedule := by
  simp [run, hstep]

/-- What holds at the end of a run and not at its start begins to hold with one of the moves. -/
theorem exists_step_of_run {P : S → Prop} {s : S} (hs : ¬ P s) {schedule : List M} (h : P (run step s schedule)) :
    ∃ before move after s', schedule = before ++ move :: after ∧ ¬ P (run step s before) ∧
      step move (run step s before) = some s' ∧ P s' := by
  induction schedule generalizing s with
  | nil => exact absurd h hs
  | cons move schedule ih =>
    cases hstep : step move s with
    | none =>
      obtain ⟨before, move', after, s', rfl, hbefore⟩ := ih hs (by simpa [run, hstep] using h)
      exact ⟨move :: before, move', after, s', rfl, by simpa [run, hstep] using hbefore⟩
    | some next =>
      by_cases hnext : P next
      · exact ⟨[], move, schedule, next, rfl, hs, hstep, hnext⟩
      obtain ⟨before, move', after, s', rfl, hbefore⟩ := ih hnext (by rwa [run_cons_of_step hstep] at h)
      refine ⟨move :: before, move', after, s', rfl, ?_⟩
      rwa [run_cons_of_step hstep]

/-- Under a measure that falls with every move, some schedule runs until no move is enabled. -/
theorem exists_halt {P : S → Prop} {μ : S → ℕ} (h : ∀ {move s s'}, P s → step move s = some s' → P s' ∧ μ s' < μ s)
    {s : S} (hs : P s) : ∃ schedule, ∀ move, step move (run step s schedule) = none := by
  induction hn : μ s using Nat.strongRecOn generalizing s with
  | ind n ih =>
    by_cases hhalt : ∃ move s', step move s = some s'
    · obtain ⟨move, s', hstep⟩ := hhalt
      obtain ⟨hs', hlt⟩ := h hs hstep
      obtain ⟨schedule, hschedule⟩ := ih _ (hn ▸ hlt) hs' rfl
      exact ⟨move :: schedule, by simpa [run, hstep] using hschedule⟩
    · exact ⟨[], fun move => Option.eq_none_iff_forall_ne_some.mpr fun s' hstep => hhalt ⟨move, s', hstep⟩⟩

end Lib.Schedule
