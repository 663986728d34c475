import Mathlib.Data.List.Basic

/-!
# Two processes over FIFO channels

Two deterministic processes exchange messages over one channel in each direction. A process either
sends, or waits for the next message, or has stopped; the scheduler picks which process moves. A
move of one side never disables a move of the other and the two commute, so one run that ends
decides every run: none is longer, and none ends elsewhere.
-/

namespace Lib.Channels
open List

/-! ## Runs of counted steps -/

section
variable {α : Type} {r : α → α → Prop}

inductive Steps (r : α → α → Prop) : ℕ → α → α → Prop
  | refl (a : α) : Steps r 0 a a
  | head {n : ℕ} {a b c : α} (first : r a b) (rest : Steps r n b c) : Steps r (n + 1) a c

variable {n : ℕ} {a b : α}

theorem Steps.trans {m : ℕ} {c : α} (hab : Steps r m a b) (hbc : Steps r n b c) : ∃ k, Steps r k a c := by
  induction hab with
  | refl a => exact ⟨n, hbc⟩
  | head first _ ih =>
    obtain ⟨k, hk⟩ := ih hbc
    exact ⟨k + 1, .head first hk⟩

def Stuck (r : α → α → Prop) (a : α) : Prop := ∀ b, ¬ r a b

def Diamond (r : α → α → Prop) : Prop :=
  ∀ ⦃a b c⦄, r a b → r a c → b = c ∨ ∃ d, r b d ∧ r c d

variable {t : α}

theorem Diamond.step_of_steps (hr : Diamond r) (hrun : Steps r n a t) (ht : Stuck r t)
    (hstep : r a b) : ∃ k, n = k + 1 ∧ Steps r k b t := by
  induction hrun generalizing b with
  | refl a => exact absurd hstep (ht b)
  | @head n a c t first rest ih =>
    refine ⟨n, rfl, ?_⟩
    rcases hr hstep first with rfl | ⟨d, hbd, hcd⟩
    · exact rest
    obtain ⟨k, rfl, hk⟩ := ih ht hcd
    exact .head hbd hk

theorem Diamond.steps_of_steps (hr : Diamond r) {m : ℕ} (hrun : Steps r n a t) (ht : Stuck r t)
    (hother : Steps r m a b) : ∃ k, n = m + k ∧ Steps r k b t := by
  induction hother generalizing n with
  | refl a => exact ⟨n, (Nat.zero_add n).symm, hrun⟩
  | head first _ ih =>
    obtain ⟨j, rfl, hj⟩ := hr.step_of_steps hrun ht first
    obtain ⟨k, rfl, hk⟩ := ih hj
    exact ⟨k, by omega, hk⟩

/-- Every run from `a` is finite, and every run that cannot go on is in `t`. -/
def EndsIn (r : α → α → Prop) (a t : α) : Prop :=
  ∃ bound, ∀ n b, Steps r n a b → n ≤ bound ∧ (Stuck r b → b = t)

theorem EndsIn.eq (h : EndsIn r a t) (hrun : Steps r n a b) (hb : Stuck r b) : b = t := by
  obtain ⟨bound, hbound⟩ := h
  exact (hbound n b hrun).2 hb

theorem Diamond.endsIn (hr : Diamond r) (hrun : Steps r n a t) (ht : Stuck r t) : EndsIn r a t := by
  refine ⟨n, fun m b hother => ?_⟩
  obtain ⟨k, rfl, hk⟩ := hr.steps_of_steps hrun ht hother
  refine ⟨by omega, fun hb => ?_⟩
  cases hk with
  | refl => rfl
  | head first _ => exact absurd first (hb _)

end

/-! ## Processes -/

inductive Action (σ Incoming Outgoing : Type)
  | send (message : Outgoing) (next : σ)
  | receive (next : Incoming → σ)
  | stop

variable {σ τ I O : Type}

def Action.perform : Action σ I O → List I → List O → Option (σ × List I × List O)
  | .send message next, incoming, outgoing => some (next, incoming, outgoing ++ [message])
  | .receive next, message :: incoming, outgoing => some (next message, incoming, outgoing)
  | .receive _, [], _ => none
  | .stop, _, _ => none

theorem Action.perform_eq_some {a : Action σ I O} {incoming incoming' : List I}
    {outgoing outgoing' : List O} {next : σ} (h : a.perform incoming outgoing = some (next, incoming', outgoing')) :
    ∃ taken sent, incoming = taken ++ incoming' ∧ outgoing' = outgoing ++ sent ∧
      ∀ i o, a.perform (taken ++ i) o = some (next, i, o ++ sent) := by
  match a, incoming, h with
  | .send message next, incoming, rfl => exact ⟨[], [message], rfl, rfl, fun _ _ => rfl⟩
  | .receive next, message :: incoming, rfl =>
    exact ⟨[message], [], rfl, (append_nil _).symm, fun _ o => by simp [perform]⟩

structure Network (σ τ I O : Type) where
  left : σ
  right : τ
  toLeft : List I
  toRight : List O

inductive Network.Step (p : σ → Action σ I O) (q : τ → Action τ O I) :
    Network σ τ I O → Network σ τ I O → Prop
  | left {s : σ} {t : τ} {i i' : List I} {o o' : List O} {s' : σ}
      (h : (p s).perform i o = some (s', i', o')) : Step p q ⟨s, t, i, o⟩ ⟨s', t, i', o'⟩
  | right {s : σ} {t : τ} {i i' : List I} {o o' : List O} {t' : τ}
      (h : (q t).perform o i = some (t', o', i')) : Step p q ⟨s, t, i, o⟩ ⟨s, t', i', o'⟩

variable {p : σ → Action σ I O} {q : τ → Action τ O I}

section
variable {s s' : σ} {t t' : τ} {i : List I} {o : List O}

theorem Network.Step.leftSends {message : O} (h : p s = .send message s') :
    Step p q ⟨s, t, i, o⟩ ⟨s', t, i, o ++ [message]⟩ :=
  .left (by rw [h]; rfl)

theorem Network.Step.leftReceives {message : I} {next : I → σ} (h : p s = .receive next)
    (hnext : next message = s') : Step p q ⟨s, t, message :: i, o⟩ ⟨s', t, i, o⟩ :=
  .left (by rw [h, ← hnext]; rfl)

theorem Network.Step.rightSends {message : I} (h : q t = .send message t') :
    Step p q ⟨s, t, i, o⟩ ⟨s, t', i ++ [message], o⟩ :=
  .right (by rw [h]; rfl)

theorem Network.Step.rightReceives {message : O} {next : O → τ} (h : q t = .receive next)
    (hnext : next message = t') : Step p q ⟨s, t, i, message :: o⟩ ⟨s, t', i, o⟩ :=
  .right (by rw [h, ← hnext]; rfl)

theorem Network.stuck (hp : (p s).perform i o = none) (hq : (q t).perform o i = none) :
    Stuck (Step p q) ⟨s, t, i, o⟩ := by
  rintro _ (⟨h⟩ | ⟨h⟩)
  · exact absurd (hp.symm.trans h) nofun
  · exact absurd (hq.symm.trans h) nofun

end

theorem Network.commute {s s' : σ} {t t' : τ} {i i₁ i₂ : List I} {o o₁ o₂ : List O}
    (hp : (p s).perform i o = some (s', i₁, o₁)) (hq : (q t).perform o i = some (t', o₂, i₂)) :
    ∃ n, Step p q ⟨s', t, i₁, o₁⟩ n ∧ Step p q ⟨s, t', i₂, o₂⟩ n := by
  obtain ⟨takenLeft, sentLeft, rfl, rfl, hleft⟩ := Action.perform_eq_some hp
  obtain ⟨takenRight, sentRight, rfl, rfl, hright⟩ := Action.perform_eq_some hq
  refine ⟨⟨s', t', i₁ ++ sentRight, o₂ ++ sentLeft⟩, .right ?_, .left ?_⟩
  · rw [append_assoc]
    exact hright _ _
  rw [append_assoc]
  exact hleft _ _

theorem Network.diamond : Diamond (Step p q) := by
  rintro a b c hb hc
  cases hb with
  | left hp =>
    cases hc with
    | left hp' =>
      left
      rw [hp] at hp'
      cases hp'
      rfl
    | right hq => exact .inr (commute hp hq)
  | right hq =>
    cases hc with
    | left hp =>
      obtain ⟨n, hl, hr⟩ := commute hp hq
      exact .inr ⟨n, hr, hl⟩
    | right hq' =>
      left
      rw [hq] at hq'
      cases hq'
      rfl

theorem Network.endsIn {n : ℕ} {a t : Network σ τ I O} (hrun : Steps (Step p q) n a t)
    (ht : Stuck (Step p q) t) : EndsIn (Step p q) a t :=
  diamond.endsIn hrun ht

end Lib.Channels
