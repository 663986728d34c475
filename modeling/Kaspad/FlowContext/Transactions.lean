import Kaspad.Transaction
import Mathlib.Algebra.Group.Int.Defs

/-! # Propagation of transaction IDs

The queue of `app/protocol/flowcontext/transactions.go`. A queue over the limit of a message is not cut: the slice
that is broadcast is as long as the queue.
-/

namespace Kaspad.FlowContext
open List

def maxInvPerTxInvMsg : ℕ := 2 ^ 17

/-- In nanoseconds, as all times here. -/
def transactionIDPropagationInterval : ℤ := 500 * 10 ^ 6

abbrev IDs := List DomainTransactionID

structure Propagation where
  transactionIDsToPropagate : IDs
  lastTransactionIDPropagationTime : ℤ
  /-- The messages given to `Broadcast` so far. -/
  broadcasts : List IDs

/-- A call, with what the clock and `Broadcast` answer during it. -/
structure Call where
  transactionIDs : IDs
  now : ℤ
  finished : ℤ
  broadcast : IDs → Bool

def transactionIDsToBroadcast (ids : IDs) : IDs := if ids.length > maxInvPerTxInvMsg then ids.take ids.length else ids

@[simp] theorem transactionIDsToBroadcast_eq (ids : IDs) : transactionIDsToBroadcast ids = ids := by
  simp [transactionIDsToBroadcast]

variable (c : Call) (last : ℤ) (ids : IDs) (sent : List IDs)

/-- Whether the loop ended without an error, what is left to propagate, and the messages broadcast. -/
def propagateLoop (ids : IDs) (sent : List IDs) : Bool × IDs × List IDs :=
  if 0 < ids.length then
    let message := transactionIDsToBroadcast ids
    if c.broadcast message then propagateLoop (ids.drop message.length) (sent ++ [message])
    else (false, ids, sent ++ [message])
  else (true, ids, sent)
termination_by ids.length
decreasing_by simpa

def Waits : Prop := c.now - last < transactionIDPropagationInterval ∧ ids.length < maxInvPerTxInvMsg

instance : Decidable (Waits c last ids) := inferInstanceAs (Decidable (_ ∧ _))

def maybePropagateTransactions (c : Call) : Propagation → Bool × Propagation
  | ⟨ids, last, sent⟩ =>
    if Waits c last ids then (true, ⟨ids, last, sent⟩)
    else match propagateLoop c ids sent with
      | (true, ids, sent) => (true, ⟨ids, c.finished, sent⟩)
      | (false, ids, sent) => (false, ⟨ids, last, sent⟩)

def enqueueTransactionIDsForPropagation : Propagation → Call → Bool × Propagation
  | ⟨ids, last, sent⟩, c => maybePropagateTransactions c ⟨ids ++ c.transactionIDs, last, sent⟩

def run (f : Propagation) (calls : List Call) : Propagation :=
  calls.foldl (fun f c => (enqueueTransactionIDsForPropagation f c).2) f

theorem propagateLoop_eq (hids : ids ≠ []) :
    propagateLoop c ids sent = (c.broadcast ids, if c.broadcast ids then [] else ids, sent ++ [ids]) := by
  -- The first round broadcasts the whole queue, and a second one finds nothing.
  rw [propagateLoop, if_pos (length_pos_iff.mpr hids), transactionIDsToBroadcast_eq]
  simp only [drop_length]
  rw [propagateLoop]
  cases c.broadcast ids <;> rfl

/-- Every call that broadcasts finds a queue that fits into one message. -/
def WithinLimit : Propagation → List Call → Prop
  | _, [] => True
  | ⟨ids, last, sent⟩, c :: calls =>
    (¬ Waits c last (ids ++ c.transactionIDs) → (ids ++ c.transactionIDs).length ≤ maxInvPerTxInvMsg) ∧
      WithinLimit (enqueueTransactionIDsForPropagation ⟨ids, last, sent⟩ c).2 calls

def Fits (sent : List IDs) : Prop := ∀ message ∈ sent, message.length ≤ maxInvPerTxInvMsg

theorem maybePropagateTransactions_spec : let f := (maybePropagateTransactions c ⟨ids, last, sent⟩).2
    (Fits f.broadcasts ↔ Fits sent ∧ (¬ Waits c last ids → ids.length ≤ maxInvPerTxInvMsg)) ∧
    ((∀ m, c.broadcast m) → f.broadcasts.flatten ++ f.transactionIDsToPropagate = sent.flatten ++ ids) := by
  rw [maybePropagateTransactions]
  split_ifs with hwaits
  · exact ⟨by simp [hwaits], fun _ => rfl⟩
  obtain rfl | hids := eq_or_ne ids []
  · rw [propagateLoop]
    exact ⟨by simp, fun _ => rfl⟩
  rw [propagateLoop_eq c ids sent hids]
  cases hb : c.broadcast ids
  · exact ⟨by simp [Fits, hwaits, or_imp, forall_and], fun h => absurd (h ids) (by simp [hb])⟩
  · exact ⟨by simp [Fits, hwaits, or_imp, forall_and], fun _ => by simp⟩

theorem run_spec (f : Propagation) (calls : List Call) :
    (Fits (run f calls).broadcasts ↔ Fits f.broadcasts ∧ WithinLimit f calls) ∧ ((∀ c ∈ calls, ∀ m, c.broadcast m) →
      (run f calls).broadcasts.flatten ++ (run f calls).transactionIDsToPropagate =
        f.broadcasts.flatten ++ f.transactionIDsToPropagate ++ calls.flatMap Call.transactionIDs) := by
  induction calls generalizing f with
  | nil => simp [run, WithinLimit]
  | cons c calls ih =>
    obtain ⟨ids, last, sent⟩ := f
    obtain ⟨hlimit, hkept⟩ := ih (enqueueTransactionIDsForPropagation ⟨ids, last, sent⟩ c).2
    obtain ⟨hlimit', hkept'⟩ := maybePropagateTransactions_spec c last (ids ++ c.transactionIDs) sent
    refine ⟨hlimit.trans ?_, fun hsucceed => ?_⟩
    · rw [WithinLimit, ← and_assoc]
      exact and_congr_left fun _ => hlimit'
    obtain ⟨hc, hcalls⟩ := forall_mem_cons.mp hsucceed
    rw [flatMap_cons, ← append_assoc, append_assoc _ _ c.transactionIDs]
    exact (hkept hcalls).trans (congrArg (· ++ _) (hkept' hc))

/-- Nothing is lost, doubled or reordered, and the messages keep to the limit exactly if the calls do. -/
theorem propagated_messages_exact (start : ℤ) (calls : List Call) : let f := run ⟨[], start, []⟩ calls
    ((∀ message ∈ f.broadcasts, message.length ≤ maxInvPerTxInvMsg) ↔ WithinLimit ⟨[], start, []⟩ calls) ∧
    ((∀ c ∈ calls, ∀ message, c.broadcast message) →
      f.broadcasts.flatten ++ f.transactionIDsToPropagate = calls.flatMap Call.transactionIDs) := by
  have h := run_spec ⟨[], start, []⟩ calls
  simpa [Fits] using h

theorem oversized_message_broadcast :
    ¬ ∀ message ∈ (run ⟨[], 0, []⟩ [⟨replicate (maxInvPerTxInvMsg + 1) 0, 0, 0, fun _ => true⟩]).broadcasts,
      message.length ≤ maxInvPerTxInvMsg := by
  intro h
  have hlength := ((run_spec _ _).1.mp h).2.1 (by simp [Waits])
  simp only [nil_append, length_replicate] at hlength
  omega

end Kaspad.FlowContext
