import Kaspad.Lib.Schedule

/-! # Stopping the connection manager

The connections loop, the `AddConnectionRequest` goroutines and `Stop` of `infrastructure/network/connmanager`. The
goroutines and `Stop` send on the unbuffered `resetLoopChan`, which only the loop receives from, and the loop may
see the stop flag first.
-/

namespace Kaspad.ConnManager

inductive Loop
  /-- Before the load of the stop flag. -/
  | head
  | checkConnections
  | waitTillNextIteration
  | exited
  deriving DecidableEq

inductive Stop
  | called
  /-- The flag is stored; the peers are being disconnected and the ticker stopped. -/
  | stored
  /-- In `run`. -/
  | sending
  | returned
  deriving DecidableEq

/-- The goroutines of `AddConnectionRequest` are counted by where they are. -/
structure ConnectionManager where
  loop : Loop
  stop : Stop
  spawned : ℕ
  sending : ℕ

inductive Move
  | loop
  /-- A tick, which ends a wait at any moment. -/
  | tick
  | stop
  | addConnectionRequest
  | receiveFromStop
  | receiveFromRequest

open Loop Stop

def step : Move → ConnectionManager → Option ConnectionManager
  | .loop, ⟨head, stop, m, k⟩ => some ⟨if stop = called then checkConnections else exited, stop, m, k⟩
  | .loop, ⟨checkConnections, stop, m, k⟩ => some ⟨waitTillNextIteration, stop, m, k⟩
  | .tick, ⟨waitTillNextIteration, stop, m, k⟩ => some ⟨head, stop, m, k⟩
  | .stop, ⟨loop, called, m, k⟩ => some ⟨loop, stored, m, k⟩
  | .stop, ⟨loop, stored, m, k⟩ => some ⟨loop, .sending, m, k⟩
  | .addConnectionRequest, ⟨loop, stop, m + 1, k⟩ => some ⟨loop, stop, m, k + 1⟩
  | .receiveFromStop, ⟨waitTillNextIteration, .sending, m, k⟩ => some ⟨head, returned, m, k⟩
  | .receiveFromRequest, ⟨waitTillNextIteration, stop, m, k + 1⟩ => some ⟨head, stop, m, k⟩
  | _, _ => none

/-- A started manager with `n` requests. -/
def run (n : ℕ) (schedule : List Move) : ConnectionManager := Lib.Schedule.run step ⟨head, called, n, 0⟩ schedule

/-- No goroutine can go on, whether or not the ticker fires again. -/
def ConnectionManager.Over (c : ConnectionManager) : Prop := ∀ move ≠ .tick, step move c = none

def ConnectionManager.Terminated (c : ConnectionManager) : Prop :=
  c.loop = exited ∧ c.stop = returned ∧ c.spawned = 0 ∧ c.sending = 0

/-- Nobody is left who will send on `resetLoopChan`. -/
def ConnectionManager.Served (c : ConnectionManager) : Prop := c.stop = returned ∧ c.spawned = 0 ∧ c.sending = 0

/-- Whenever the loop loads the flag and finds it set, everybody has been served. -/
def LeavesLast (n : ℕ) (schedule : List Move) : Prop :=
  ∀ before after, schedule = before ++ .loop :: after → (run n before).loop = head → (run n before).stop ≠ called →
    (run n before).Served

/-- `Stop` returns by waking the loop, which then leaves at its head. -/
def ConnectionManager.Woken (c : ConnectionManager) : Prop := c.stop = returned → c.loop = head ∨ c.loop = exited

def Loop.movesLeft : Loop → ℕ
  | checkConnections => 3
  | waitTillNextIteration => 2
  | head => 1
  | exited => 0

def Stop.movesLeft : Stop → ℕ
  | called => 3
  | stored => 2
  | .sending => 1
  | returned => 0

/-- It falls with every move, so it bounds the moves of a run. -/
def ConnectionManager.movesLeft (c : ConnectionManager) : ℕ :=
  c.loop.movesLeft + c.stop.movesLeft + 2 * c.spawned + c.sending

variable {n : ℕ} {c c' : ConnectionManager} {move : Move}

theorem ConnectionManager.Woken.step (h : c.Woken) (hstep : step move c = some c') : c'.Woken := by
  obtain ⟨loop, stop, spawned, sending⟩ := c
  cases move with
  | loop =>
    -- A loop that goes on to wait has read the flag before it was stored.
    cases loop <;> cases stop <;> cases hstep <;> simp_all [ConnectionManager.Woken]
  | tick => cases loop <;> cases hstep; exact fun _ => .inl rfl
  | stop => cases stop <;> cases hstep <;> nofun
  | addConnectionRequest => cases spawned <;> cases hstep; exact h
  | receiveFromStop => cases loop <;> cases stop <;> cases hstep; exact fun _ => .inl rfl
  | receiveFromRequest => cases loop <;> cases sending <;> cases hstep; exact fun _ => .inl rfl

theorem movesLeft_lt (hstored : c.stop ≠ called) (hstep : step move c = some c') : c'.movesLeft < c.movesLeft := by
  obtain ⟨loop, stop, spawned, sending⟩ := c
  cases move with
  | loop =>
    cases loop with
    | head => cases hstep; simp_all [ConnectionManager.movesLeft, Loop.movesLeft]
    | checkConnections => cases hstep; simp [ConnectionManager.movesLeft, Loop.movesLeft]
    | waitTillNextIteration => cases hstep
    | exited => cases hstep
  | tick => cases loop <;> cases hstep; simp [ConnectionManager.movesLeft, Loop.movesLeft]
  | stop => cases stop <;> cases hstep <;> simp_all [ConnectionManager.movesLeft, Stop.movesLeft]
  | addConnectionRequest => cases spawned <;> cases hstep; simp [ConnectionManager.movesLeft]; omega
  | receiveFromStop =>
    cases loop <;> cases stop <;> cases hstep
    simp [ConnectionManager.movesLeft, Loop.movesLeft, Stop.movesLeft]
  | receiveFromRequest =>
    cases loop <;> cases sending <;> cases hstep
    simp [ConnectionManager.movesLeft, Loop.movesLeft]
    omega

/-- The loop leaves with a load of the flag at its head. -/
theorem exited_of_step (hloop : c.loop ≠ exited) (hstep : step move c = some c') (hexited : c'.loop = exited) :
    move = .loop ∧ c.loop = head ∧ c.stop ≠ called := by
  obtain ⟨loop, stop, spawned, sending⟩ := c
  cases move with
  | loop => cases loop <;> cases hstep <;> simp_all
  | tick => cases loop <;> cases hstep; cases hexited
  | stop => cases stop <;> cases hstep <;> exact absurd hexited hloop
  | addConnectionRequest => cases spawned <;> cases hstep; exact absurd hexited hloop
  | receiveFromStop => cases loop <;> cases stop <;> cases hstep; cases hexited
  | receiveFromRequest => cases loop <;> cases sending <;> cases hstep; cases hexited

theorem step_of_flag_set (hhead : c.loop = head) (hstored : c.stop ≠ called) :
    step .loop c = some { c with loop := exited } := by
  obtain ⟨loop, stop, spawned, sending⟩ := c
  cases hhead
  exact congrArg some (by rw [if_neg hstored])

/-- Without the loop nobody is served any more. -/
theorem step_of_exited (hexited : c.loop = exited) (hstep : step move c = some c') :
    c'.loop = exited ∧ (c'.Served ↔ c.Served) := by
  obtain ⟨loop, stop, spawned, sending⟩ := c
  cases hexited
  cases move with
  | loop => cases hstep
  | tick => cases hstep
  | stop => cases stop <;> cases hstep <;> exact ⟨rfl, iff_of_false nofun nofun⟩
  | addConnectionRequest => cases spawned <;> cases hstep; exact ⟨rfl, by simp [ConnectionManager.Served]⟩
  | receiveFromStop => cases stop <;> cases hstep
  | receiveFromRequest => cases sending <;> cases hstep

theorem served_of_exited (hexited : c.loop = exited) (schedule : List Move) :
    (Lib.Schedule.run step c schedule).Served ↔ c.Served :=
  (Lib.Schedule.run_preserves (P := fun c' => c'.loop = exited ∧ (c'.Served ↔ c.Served))
    (fun h hstep => ⟨(step_of_exited h.1 hstep).1, (step_of_exited h.1 hstep).2.trans h.2⟩) ⟨hexited, .rfl⟩ schedule).2

theorem run_woken (n : ℕ) (schedule : List Move) : (run n schedule).Woken :=
  Lib.Schedule.run_preserves (fun h hstep => h.step hstep) nofun schedule

theorem ConnectionManager.Over.exited (h : c.Over) (hc : c.Woken) : c.loop = exited := by
  obtain ⟨loop, stop, spawned, sending⟩ := c
  cases loop with
  | head => cases h .loop nofun
  | checkConnections => cases h .loop nofun
  | waitTillNextIteration =>
    -- `Stop` moves on, or its message is received; it has not returned while the loop waits.
    cases stop with
    | called => cases h .stop nofun
    | stored => cases h .stop nofun
    | sending => cases h .receiveFromStop nofun
    | returned => simpa using hc rfl
  | exited => rfl

theorem run_of_flag_set {before after : List Move} (hhead : (run n before).loop = head)
    (hstored : (run n before).stop ≠ called) :
    (run n (before ++ .loop :: after)).Served ↔ (run n before).Served := by
  have hrun : run n (before ++ .loop :: after) =
      Lib.Schedule.run step { run n before with loop := Loop.exited } after := by
    rw [run, Lib.Schedule.run_append]
    exact Lib.Schedule.run_cons_of_step (step_of_flag_set hhead hstored) after
  rw [hrun, served_of_exited rfl]
  rfl

/-- A run that has come to an end has served everybody exactly if the loop left last. -/
theorem served_iff_leavesLast {schedule : List Move} (hexited : (run n schedule).loop = exited) :
    (run n schedule).Served ↔ LeavesLast n schedule := by
  refine ⟨?_, fun hlast => ?_⟩
  · rintro hserved before after rfl hhead hstored
    exact (run_of_flag_set hhead hstored).mp hserved
  obtain ⟨before, move, after, s', rfl, hbefore, hstep, hs'⟩ :=
    Lib.Schedule.exists_step_of_run (P := fun c : ConnectionManager => c.loop = exited)
      (show head ≠ exited by decide) hexited
  obtain ⟨rfl, hhead, hstored⟩ := exited_of_step hbefore hstep hs'
  exact (run_of_flag_set hhead hstored).mpr (hlast before after rfl hhead hstored)

/-- Every run from a call of `Stop` comes to a halt, and has ended there exactly under `LeavesLast`. -/
theorem stop_terminates_iff (n : ℕ) (schedule : List Move) :
    let c := run n schedule
    (c.Over → c.loop = exited ∧ (c.Terminated ↔ LeavesLast n schedule)) ∧
      (c.stop ≠ called → ∀ move c', step move c = some c' → c'.movesLeft < c.movesLeft) := by
  intro c
  refine ⟨fun hover => ?_, fun hstored _ _ => movesLeft_lt hstored⟩
  have hexited : c.loop = exited := hover.exited (run_woken n schedule)
  refine ⟨hexited, ?_⟩
  rw [← served_iff_leavesLast hexited]
  exact and_iff_right hexited

/-- The loop sees the flag before anyone sends to it. -/
theorem stop_blocks_forever :
    (run 1 [.stop, .loop, .stop, .addConnectionRequest]).Over ∧
      ¬ (run 1 [.stop, .loop, .stop, .addConnectionRequest]).Terminated := by
  refine ⟨fun move _ => ?_, nofun⟩
  cases move <;> rfl

end Kaspad.ConnManager
