import Kaspad.Lib.Schedule

/-! # Receiving headers ahead of their processing

The goroutine that `syncPruningPointFutureHeaders` of `app/protocol/flows/v5/blockrelay/ibd.go` spawns, and the loop
that consumes what it receives. The goroutine sends its error on an unbuffered channel, and the consumer may have
returned before.
-/

namespace Kaspad.IBD.FutureHeaders
open Lib

/-- What a `receiveHeaders` returns. -/
inductive Received
  /-- An error of the route, a timeout or a message of another type. -/
  | error
  | doneHeaders
  | emptyHeaders
  /-- Whether `processHeader` accepts all the headers, and whether the next request can be enqueued. -/
  | blockHeaders (accepted enqueued : Bool)

inductive Producer
  | receiving
  /-- `blockHeadersMessageChan <- blockHeadersMessage` -/
  | sending (accepted enqueued : Bool)
  /-- `errChan <- err` -/
  | failing
  | returned

inductive Consumer
  | selecting
  | processing (accepted : Bool)
  | returned

structure Sync where
  /-- What the route still delivers; after that every receive times out. -/
  incoming : List Received
  producer : Producer
  consumer : Consumer
  /-- Closed when the producer returns. -/
  blockHeadersMessageChan : List Bool

inductive Move
  | producer
  | consumer
  /-- The error is handed over on `errChan`. -/
  | error

open Producer Received

def receive : Received → Producer
  | doneHeaders => returned
  | blockHeaders accepted enqueued => sending accepted enqueued
  | .error => failing
  | emptyHeaders => failing

def step : Move → Sync → Option Sync
  | .producer, ⟨[], receiving, c, chan⟩ => some ⟨[], failing, c, chan⟩
  | .producer, ⟨received :: incoming, receiving, c, chan⟩ => some ⟨incoming, receive received, c, chan⟩
  | .producer, ⟨incoming, sending accepted enqueued, c, chan⟩ =>
    if chan.length < 2 then some ⟨incoming, if enqueued then receiving else failing, c, chan ++ [accepted]⟩ else none
  | .consumer, ⟨incoming, p, .selecting, accepted :: chan⟩ => some ⟨incoming, p, .processing accepted, chan⟩
  | .consumer, ⟨incoming, returned, .selecting, []⟩ => some ⟨incoming, returned, .returned, []⟩
  | .consumer, ⟨incoming, p, .processing accepted, chan⟩ =>
    some ⟨incoming, p, if accepted then .selecting else .returned, chan⟩
  | .error, ⟨incoming, failing, .selecting, chan⟩ => some ⟨incoming, returned, .returned, chan⟩
  | _, _ => none

def start (incoming : List Received) : Sync := ⟨incoming, receiving, .selecting, []⟩

def Sync.Over (s : Sync) : Prop := ∀ move, step move s = none

/-- Wherever the goroutine comes to a halt from here, it has returned. -/
def Sync.Terminates (s : Sync) : Prop :=
  ∀ schedule, (Schedule.run step s schedule).Over → (Schedule.run step s schedule).producer = returned

/-- The route delivers `MsgDoneHeaders` before an error, and before it no more than fills the channel. -/
def Drains : List Received → ℕ → Prop
  | doneHeaders :: _, _ => True
  | blockHeaders _ true :: incoming, queued => queued < 2 ∧ Drains incoming (queued + 1)
  | _, _ => False

/-- The messages that are left end with `MsgDoneHeaders` and fit into the channel. -/
def Sync.Drains : Sync → Prop
  | ⟨incoming, receiving, _, chan⟩ => FutureHeaders.Drains incoming chan.length
  | ⟨incoming, sending accepted enqueued, _, chan⟩ =>
    FutureHeaders.Drains (blockHeaders accepted enqueued :: incoming) chan.length
  | ⟨_, failing, _, _⟩ => False
  | ⟨_, returned, _, _⟩ => True

/-- It falls with every move of the producer. -/
def Sync.movesLeft : Sync → ℕ
  | ⟨incoming, receiving, _, _⟩ => 2 * incoming.length + 1
  | ⟨incoming, sending _ _, _, _⟩ => 2 * incoming.length + 2
  | _ => 0

variable {s s' : Sync} {move : Move}

/-- Once the consumer has returned, only the producer moves. -/
theorem step_of_returned (h : s.consumer = .returned) (hstep : step move s = some s') :
    s'.consumer = .returned ∧ (s'.Drains ↔ s.Drains) ∧ s'.movesLeft < s.movesLeft := by
  obtain ⟨incoming, p, c, chan⟩ := s
  cases h
  cases move with
  | consumer => simp [step] at hstep
  | error => simp [step] at hstep
  | producer =>
    cases p with
    | receiving =>
      obtain _ | ⟨_ | _ | _ | _, incoming⟩ := incoming <;> cases hstep <;>
        exact ⟨rfl, .rfl, by simp [receive, Sync.movesLeft] <;> omega⟩
    | sending accepted enqueued =>
      by_cases hroom : chan.length < 2
      · rw [step, if_pos hroom] at hstep
        cases enqueued <;> cases hstep <;> simp [Sync.Drains, Drains, Sync.movesLeft, hroom]
      · simp [step, hroom] at hstep
    | failing => simp [step] at hstep
    | returned => simp [step] at hstep

theorem Sync.Over.returned_iff (hover : s.Over) : s.producer = returned ↔ s.Drains := by
  obtain ⟨incoming, p, c, chan⟩ := s
  have hproducer := hover .producer
  cases p with
  | receiving => cases incoming <;> cases hproducer
  | sending accepted enqueued =>
    have hfull : ¬ chan.length < 2 := fun hroom => by simp [step, hroom] at hproducer
    cases enqueued <;> simp [Sync.Drains, FutureHeaders.Drains, hfull]
  | failing => exact ⟨nofun, False.elim⟩
  | returned => exact ⟨fun _ => trivial, fun _ => rfl⟩

/-- Once the consumer has returned, the producer ends exactly if what is left drains. -/
theorem producer_terminates_iff (incoming : List Received) (schedule : List Move) :
    let s := Schedule.run step (start incoming) schedule
    ((s.consumer = .returned → s.Terminates) ↔ (s.consumer = .returned → s.Drains)) ∧
      (s.consumer = .returned → ∀ move s', step move s = some s' → s'.movesLeft < s.movesLeft) := by
  intro s
  refine ⟨forall_congr' fun hreturned => ?_, fun hreturned move s' hstep => (step_of_returned hreturned hstep).2.2⟩
  have hdrains (schedule : List Move) : (Schedule.run step s schedule).Drains ↔ s.Drains := by
    refine (Schedule.run_preserves (P := fun t : Sync => t.consumer = .returned ∧ (t.Drains ↔ s.Drains)) ?_
      ⟨hreturned, .rfl⟩ schedule).2
    intro move t t' ht hstep
    obtain ⟨hreturned', hiff, -⟩ := step_of_returned ht.1 hstep
    exact ⟨hreturned', hiff.trans ht.2⟩
  refine ⟨fun h => ?_, fun h schedule hover => hover.returned_iff.mpr ((hdrains schedule).mpr h)⟩
  obtain ⟨schedule, hover⟩ : ∃ schedule, (Schedule.run step s schedule).Over :=
    Schedule.exists_halt (fun h hstep => (step_of_returned h hstep).imp_right And.right) hreturned
  exact (hdrains schedule).mp (hover.returned_iff.mp (h schedule hover))

/-- A header is rejected, and then the route times out. -/
theorem goroutine_leaks :
    let s := Schedule.run step (start [blockHeaders false true]) [.producer, .producer, .consumer, .consumer, .producer]
    s.consumer = .returned ∧ ¬ s.Terminates := by
  refine ⟨rfl, fun h => nomatch h [] fun move => ?_⟩
  cases move <;> rfl

end Kaspad.IBD.FutureHeaders
