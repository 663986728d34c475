import Mathlib.Logic.Relation
import Mathlib.Order.Basic

/-! # Programs that keep their state when they fail

Imperative code with an explicit error result: a failing call stops the caller, but whatever was written
before the failure stays written. `Prog` is that monad. `Keeps P m` is an invariant rule, for a property
that holds after `m` however `m` ends. `Raises e m s` says that one failure is the outcome, and `Spares`
that it never is. `Total` is a total-correctness rule for programs with loops of unknown length: such a
program is a family indexed by the number of rounds its loops may take, and its meaning is the value of
the family for every large enough number.
-/

namespace Lib

/-- A program over the state `σ` that returns a value or stops with a failure, in a state. -/
abbrev Prog (σ ε α : Type) := ExceptT ε (StateM σ) α

namespace Prog
variable {σ ε α β : Type}

def exec (m : Prog σ ε α) (s : σ) : Except ε α × σ := m.run.run s

@[simp] theorem exec_pure (a : α) (s : σ) : exec (pure a : Prog σ ε α) s = (.ok a, s) := rfl

@[simp] theorem exec_throw (e : ε) (s : σ) : exec (throw e : Prog σ ε α) s = (.error e, s) := rfl

@[simp] theorem exec_get (s : σ) : exec (get : Prog σ ε σ) s = (.ok s, s) := rfl

@[simp] theorem exec_modify (f : σ → σ) (s : σ) : exec (modify f : Prog σ ε PUnit) s = (.ok ⟨⟩, f s) := rfl

theorem exec_bind (m : Prog σ ε α) (k : α → Prog σ ε β) (s : σ) : exec (m >>= k) s = match exec m s with
      | (.ok a, s') => exec (k a) s'
      | (.error e, s') => (.error e, s') := by
  have hbind : exec (m >>= k) s = ExceptT.bindCont k (exec m s).1 (exec m s).2 := rfl
  rw [hbind]
  rcases exec m s with ⟨_ | _, s'⟩ <;> rfl

theorem exec_tryCatch (m : Prog σ ε α) (h : ε → Prog σ ε α) (s : σ) : exec (tryCatch m h) s = match exec m s with
      | (.ok a, s') => (.ok a, s')
      | (.error e, s') => exec (h e) s' := by
  have hcatch : exec (tryCatch m h) s = (match (exec m s).1 with
        | .ok a => (pure (.ok a) : StateM σ (Except ε α))
        | .error e => h e) (exec m s).2 := rfl
  rw [hcatch]
  rcases exec m s with ⟨_ | _, s'⟩ <;> rfl

variable {m : Prog σ ε α} {s : σ} {a : α} {k : α → Prog σ ε β} {n : ℕ}

theorem exec_bind_ok {s' : σ} (h : exec m s = (.ok a, s')) (k : α → Prog σ ε β) :
    exec (m >>= k) s = exec (k a) s' := by
  rw [exec_bind, h]

theorem exec_bind_eq_ok {t : σ} {b : β} (h : exec (m >>= k) s = (.ok b, t)) :
    ∃ a s', exec m s = (.ok a, s') ∧ exec (k a) s' = (.ok b, t) := by
  rw [exec_bind] at h
  rcases hm : exec m s with ⟨e | a, s'⟩ <;> rw [hm] at h
  · cases h
  · exact ⟨a, s', rfl, h⟩

theorem exec_discard_ok {s' : σ} (h : exec m s = (.ok a, s')) : exec (discard m) s = (.ok ⟨⟩, s') :=
  exec_bind_ok h fun _ => pure PUnit.unit

@[simp] theorem exec_set (s' s : σ) : exec (set s' : Prog σ ε PUnit) s = (.ok ⟨⟩, s') := rfl

@[simp] theorem exec_ofExcept (r : Except ε α) (s : σ) : exec (ofExcept r : Prog σ ε α) s = (r, s) := by
  cases r <;> rfl

def zoom {τ : Type} (part : σ → τ) (put : τ → σ → σ) (m : Prog τ ε α) : Prog σ ε α :=
  ExceptT.mk fun s => ((exec m (part s)).1, put (exec m (part s)).2 s)

@[simp] theorem exec_zoom {τ : Type} (part : σ → τ) (put : τ → σ → σ) (m : Prog τ ε α) (s : σ) :
    exec (zoom part put m) s = ((exec m (part s)).1, put (exec m (part s)).2 s) := rfl

/-- The program on a part of the state, with its failures converted. -/
def zoomError {τ ε' : Type} (part : σ → τ) (put : τ → σ → σ) (convert : ε' → ε) (m : Prog τ ε' α) : Prog σ ε α :=
  ExceptT.mk fun s => ((exec m (part s)).1.mapError convert, put (exec m (part s)).2 s)

def returnIf (c : Bool) (e : ε) : Prog σ ε PUnit := if c then throw e else pure ()

/-! ## Invariants -/

def Keeps (P : σ → Prop) (m : Prog σ ε α) : Prop := ∀ s, P s → P (exec m s).2

section
variable {P : σ → Prop}

theorem keeps_pure (a : α) : Keeps P (pure a : Prog σ ε α) := fun _ hs => hs

theorem keeps_throw (e : ε) : Keeps P (throw e : Prog σ ε α) := fun _ hs => hs

theorem keeps_modify {f : σ → σ} (h : ∀ s, P s → P (f s)) : Keeps P (modify f : Prog σ ε PUnit) := h

variable {m : Prog σ ε α} {k : α → Prog σ ε β} {h : ε → Prog σ ε α} {r : Except ε α}

def Leads (P Q : σ → Prop) (m : Prog σ ε α) : Prop := ∀ s, P s → Q (exec m s).2

variable {Q : σ → Prop}

theorem Leads.bind (hm : Leads P Q m) (hk : ∀ a, Keeps Q (k a)) : Leads P Q (m >>= k) := by
  intro s hs
  have hs' := hm s hs
  rw [exec_bind]
  rcases h : exec m s with ⟨e | a, s'⟩ <;> rw [h] at hs'
  · exact hs'
  · exact hk a s' hs'

theorem Leads.discard (hm : Leads P Q m) : Leads P Q (discard m) :=
  hm.bind fun _ => keeps_pure _

theorem Leads.tryCatch (hm : Leads P Q m) (hh : ∀ e, Keeps Q (h e)) : Leads P Q (tryCatch m h) := by
  intro s hs
  have hs' := hm s hs
  rw [exec_tryCatch]
  rcases he : exec m s with ⟨e | a, s'⟩ <;> rw [he] at hs'
  · exact hh e s' hs'
  · exact hs'

theorem Leads.of_exec (hm : Leads P Q m) {s s' : σ} (hs : P s) (h : exec m s = (r, s')) : Q s' := by
  have hs' := hm s hs
  rwa [h] at hs'

theorem Keeps.bind (hm : Keeps P m) (hk : ∀ a, Keeps P (k a)) : Keeps P (m >>= k) := Leads.bind hm hk

theorem Keeps.discard (hm : Keeps P m) : Keeps P (discard m) :=
  hm.bind fun _ => keeps_pure _

theorem keeps_get_bind {k : σ → Prog σ ε β} (hk : ∀ s, P s → Keeps P (k s)) : Keeps P (get >>= k) := by
  intro s hs
  rw [exec_bind, exec_get]
  exact hk s hs s hs

theorem Keeps.tryCatch (hm : Keeps P m) (hh : ∀ e, Keeps P (h e)) : Keeps P (tryCatch m h) := Leads.tryCatch hm hh

theorem keeps_forM {xs : List α} {f : α → Prog σ ε PUnit} (hf : ∀ x ∈ xs, Keeps P (f x)) : Keeps P (xs.forM f) := by
  induction xs with
  | nil => exact keeps_pure _
  | cons x xs ih =>
    exact (hf x (by simp)).bind fun _ => ih fun y hy => hf y (by simp [hy])

theorem Keeps.of_exec (hm : Keeps P m) {s s' : σ} (hs : P s) (h : exec m s = (r, s')) : P s' := Leads.of_exec hm hs h

theorem Keeps.leads_bind (hm : Keeps P m) (hPQ : ∀ s, P s → Q s) (hk : ∀ a, Leads P Q (k a)) :
    Leads P Q (m >>= k) := by
  intro s hs
  have hs' := hm s hs
  rw [exec_bind]
  rcases h : exec m s with ⟨e | a, s'⟩ <;> rw [h] at hs'
  · exact hPQ s' hs'
  · exact hk a s' hs'

end

/-! ## Single failures -/

def Raises (e : ε) (m : Prog σ ε α) (s : σ) : Prop := (exec m s).1 = .error e

variable {e : ε}

theorem raises_bind : Raises e (m >>= k) s ↔ Raises e m s ∨ ∃ a s', exec m s = (.ok a, s') ∧ Raises e (k a) s' := by
  unfold Raises
  rw [exec_bind]
  rcases exec m s with ⟨err | a, s'⟩
  · constructor
    · exact fun h => .inl (congrArg Except.error (Except.error.inj h))
    rintro (h | ⟨a, s'', heq, -⟩)
    · exact congrArg Except.error (Except.error.inj h)
    · cases heq
  constructor
  · exact fun h => .inr ⟨a, s', rfl, h⟩
  rintro (h | ⟨a', s'', heq, h⟩)
  · cases h
  obtain ⟨ha, rfl⟩ := Prod.mk.inj heq
  cases ha
  exact h

theorem raises_bind_ok {s' : σ} (h : exec m s = (.ok a, s')) : Raises e (m >>= k) s ↔ Raises e (k a) s' := by
  unfold Raises
  rw [exec_bind_ok h]

theorem raises_throw {e' : ε} : Raises e (throw e' : Prog σ ε α) s ↔ e' = e :=
  ⟨fun h => Except.error.inj h, fun h => congrArg Except.error h⟩

theorem not_raises_pure : ¬Raises e (pure a : Prog σ ε α) s := nofun

/-- From a state with `P` the program does not stop with the failure `e`, and `P` holds afterwards. -/
structure Spares (e : ε) (P : σ → Prop) (m : Prog σ ε α) : Prop where
  not_raises : ∀ s, P s → ¬Raises e m s
  keeps : Keeps P m

section
variable {e : ε} {P : σ → Prop}

theorem spares_pure (a : α) : Spares e P (pure a : Prog σ ε α) :=
  ⟨fun _ _ => not_raises_pure, keeps_pure a⟩

theorem spares_throw {e' : ε} (h : e' ≠ e) : Spares e P (throw e' : Prog σ ε α) :=
  ⟨fun _ _ hraises => h (raises_throw.mp hraises), keeps_throw e'⟩

theorem spares_returnIf {e' : ε} (c : Bool) (h : e' ≠ e) : Spares e P (returnIf c e' : Prog σ ε PUnit) := by
  cases c with
  | true => exact spares_throw h
  | false => exact spares_pure _

theorem spares_zoomError {τ ε' : Type} {part : σ → τ} {put : τ → σ → σ} {convert : ε' → ε}
    (hconvert : ∀ err, convert err ≠ e) (hput : ∀ s t, P s → P (put t s)) (m : Prog τ ε' α) :
    Spares e P (zoomError part put convert m) := by
  refine ⟨fun s _ hraises => ?_, fun s hs => hput s _ hs⟩
  have hresult : (exec m (part s)).1.mapError convert = .error e := hraises
  cases hm : (exec m (part s)).1 with
  | ok a =>
    rw [hm] at hresult
    cases hresult
  | error err =>
    rw [hm] at hresult
    exact hconvert err (Except.error.inj hresult)

variable {m : Prog σ ε α} {k : α → Prog σ ε β}

theorem Spares.bind (hm : Spares e P m) (hk : ∀ a, Spares e P (k a)) : Spares e P (m >>= k) := by
  refine ⟨fun s hs hraises => ?_, hm.keeps.bind fun a => (hk a).keeps⟩
  obtain ⟨a, s', hexec, hraises'⟩ := (raises_bind.mp hraises).resolve_left (hm.not_raises s hs)
  exact (hk a).not_raises s' (hm.keeps.of_exec hs hexec) hraises'

theorem Spares.raises_bind {s : σ} (hm : Spares e P m) (hs : P s) (h : Raises e (m >>= k) s) :
    ∃ a s', exec m s = (.ok a, s') ∧ P s' ∧ Raises e (k a) s' := by
  obtain ⟨a, s', hexec, hraises⟩ := (Prog.raises_bind.mp h).resolve_left (hm.not_raises s hs)
  exact ⟨a, s', hexec, hm.keeps.of_exec hs hexec, hraises⟩

end

def iterate (out : ε) (f : α → Prog σ ε α) : ℕ → α → Prog σ ε β
  | 0, _ => throw out
  | n + 1, a => f a >>= iterate out f n

def Round (f : α → Prog σ ε α) (c c' : α × σ) : Prop := exec (f c.1) c.2 = (.ok c'.1, c'.2)

theorem raises_iterate_iff {out : ε} {f : α → Prog σ ε α} (rank : α × σ → ℕ)
    (hrank : ∀ c c', Round f c c' → rank c' < rank c) (hn : rank (a, s) < n) :
    Raises e (iterate out f n a : Prog σ ε β) s ↔
      ∃ c, Relation.ReflTransGen (Round f) (a, s) c ∧ Raises e (f c.1) c.2 := by
  induction n generalizing a s with
  | zero => omega
  | succ n ih =>
    unfold iterate
    rw [raises_bind]
    constructor
    · rintro (h | ⟨a', s', hround, h⟩)
      · exact ⟨(a, s), .refl, h⟩
      have hlt := hrank (a, s) (a', s') hround
      obtain ⟨c, hreach, hc⟩ := (ih (by omega)).mp h
      exact ⟨c, Relation.ReflTransGen.head (b := (a', s')) hround hreach, hc⟩
    rintro ⟨c, hreach, hc⟩
    obtain rfl | ⟨⟨a', s'⟩, hround, hrest⟩ := hreach.cases_head
    · exact .inl hc
    have hlt := hrank (a, s) (a', s') hround
    exact .inr ⟨a', s', hround, (ih (by omega)).mpr ⟨c, hrest, hc⟩⟩

/-! ## Total correctness -/

def Ends (Q : α → σ → Prop) (E : ε → σ → Prop) : Except ε α × σ → Prop
  | (.ok a, s) => Q a s
  | (.error e, s) => E e s

section
variable {Q Q' : α → σ → Prop} {E E' : ε → σ → Prop}

theorem Ends.mono {r : Except ε α × σ} (h : Ends Q E r) (hQ : ∀ a s, Q a s → Q' a s)
    (hE : ∀ e s, E e s → E' e s) : Ends Q' E' r := by
  rcases r with ⟨e | a, s⟩
  · exact hE e s h
  · exact hQ a s h

theorem ends_bind {R : β → σ → Prop} {m : Prog σ ε α} {k : α → Prog σ ε β} {s : σ}
    (hm : Ends Q E (exec m s)) (hk : ∀ a s', Q a s' → Ends R E (exec (k a) s')) : Ends R E (exec (m >>= k) s) := by
  rw [exec_bind]
  rcases h : exec m s with ⟨e | a, s'⟩ <;> rw [h] at hm
  · exact hm
  · exact hk a s' hm

end

def untilDone (out : ε) (f : α → Prog σ ε (β ⊕ α)) : ℕ → α → Prog σ ε β
  | 0, _ => throw out
  | n + 1, a => do
    match ← f a with
    | .inl b => pure b
    | .inr a' => untilDone out f n a'

theorem ends_untilDone {I : α → σ → Prop} {Q : β → σ → Prop} {E : ε → σ → Prop} {out : ε}
    {f : α → Prog σ ε (β ⊕ α)} (rank : α → ℕ)
    (hround : ∀ a s, I a s → Ends (fun r s' => Sum.elim (Q · s') (fun a' => I a' s' ∧ rank a' < rank a) r) E
      (exec (f a) s)) (hn : rank a < n) (hs : I a s) : Ends Q E (exec (untilDone out f n a) s) := by
  induction n generalizing a s with
  | zero => omega
  | succ n ih =>
    refine ends_bind (hround a s hs) ?_
    rintro (b | a') s' hr
    · exact hr
    · exact ih (by have := hr.2; omega) hr.1

/-- The outcome of a family of programs: what all members from some number of rounds on do. -/
def Converges (m : ℕ → Prog σ ε α) (s : σ) (r : Except ε α × σ) : Prop :=
  ∃ N, ∀ n, N ≤ n → exec (m n) s = r

theorem Converges.unique {m : ℕ → Prog σ ε α} {r r' : Except ε α × σ} (h : Converges m s r)
    (h' : Converges m s r') : r = r' := by
  obtain ⟨N, hN⟩ := h
  obtain ⟨N', hN'⟩ := h'
  rw [← hN (max N N') (Nat.le_max_left _ _), hN' (max N N') (Nat.le_max_right _ _)]

/-- Wherever `m` does not stop with the failure `e`, `m'` does the same. -/
def Extends (e : ε) (m m' : Prog σ ε α) : Prop := ∀ s, (exec m s).1 = .error e ∨ exec m' s = exec m s

theorem Extends.refl (e : ε) (m : Prog σ ε α) : Extends e m m := fun _ => .inr rfl

theorem extends_throw (e : ε) (m : Prog σ ε α) : Extends e (throw e) m := fun _ => .inl rfl

theorem Extends.bind {e : ε} {m m' : Prog σ ε α} {k k' : α → Prog σ ε β} (hm : Extends e m m')
    (hk : ∀ a, Extends e (k a) (k' a)) : Extends e (m >>= k) (m' >>= k') := by
  intro s
  rw [exec_bind, exec_bind]
  obtain h | h := hm s
  · rcases hs : exec m s with ⟨e' | a, s'⟩ <;> rw [hs] at h
    · cases h
      exact .inl rfl
    · cases h
  · rw [h]
    rcases exec m s with ⟨e' | a, s'⟩
    · exact .inr rfl
    · exact hk a s'

theorem converges_of_extends {e : ε} {m : ℕ → Prog σ ε α} (hm : ∀ n, Extends e (m n) (m (n + 1))) {n : ℕ} {s s' : σ}
    {r : Except ε α} (h : exec (m n) s = (r, s')) (hr : r ≠ .error e) : Converges m s (r, s') := by
  refine ⟨n, fun k hk => ?_⟩
  induction hk with
  | refl => exact h
  | @step k _ ih =>
    refine ((hm k s).resolve_left fun he => hr ?_).trans ih
    rwa [ih] at he

def Total (P : σ → Prop) (m : ℕ → Prog σ ε α) (Q : α → σ → Prop) (E : ε → σ → Prop) : Prop :=
  ∀ s, P s → ∃ r, Converges m s r ∧ Ends Q E r

variable {P P' : σ → Prop} {Q Q' : α → σ → Prop} {E E' : ε → σ → Prop}

theorem total_of_exec {m : Prog σ ε α} (h : ∀ s, P s → Ends Q E (exec m s)) : Total P (fun _ => m) Q E :=
  fun s hs => ⟨exec m s, ⟨0, fun _ _ => rfl⟩, h s hs⟩

variable {m : ℕ → Prog σ ε α}

theorem Total.weaken (h : Total P m Q E) (hP : ∀ s, P' s → P s) (hQ : ∀ a s, Q a s → Q' a s)
    (hE : ∀ e s, E e s → E' e s) : Total P' m Q' E' := by
  intro s hs
  obtain ⟨⟨e | a, s'⟩, hr, hends⟩ := h s (hP s hs)
  · exact ⟨_, hr, hE e s' hends⟩
  · exact ⟨_, hr, hQ a s' hends⟩

theorem Total.pre (h : Total P m Q E) (hP : ∀ s, P' s → P s) : Total P' m Q E :=
  h.weaken hP (fun _ _ h => h) fun _ _ h => h

theorem Total.post (h : Total P m Q E) (hQ : ∀ a s, Q a s → Q' a s) : Total P m Q' E :=
  h.weaken (fun _ h => h) hQ fun _ _ h => h

theorem total_pure {a : α} (h : ∀ s, P s → Q a s) : Total P (fun _ => (pure a : Prog σ ε α)) Q E :=
  total_of_exec fun s hs => h s hs

theorem total_throw {e : ε} (h : ∀ s, P s → E e s) : Total P (fun _ => (throw e : Prog σ ε α)) Q E :=
  total_of_exec fun s hs => h s hs

theorem Total.bind {R : β → σ → Prop} {k : α → ℕ → Prog σ ε β} (hm : Total P m Q E)
    (hk : ∀ a, Total (Q a) (k a) R E) : Total P (fun n => m n >>= fun a => k a n) R E := by
  intro s hs
  obtain ⟨⟨e | a, s'⟩, ⟨N, hN⟩, hends⟩ := hm s hs
  · refine ⟨(.error e, s'), ⟨N, fun n hn => ?_⟩, hends⟩
    rw [exec_bind, hN n hn]
  obtain ⟨r, ⟨N', hN'⟩, hr⟩ := hk a s' hends
  refine ⟨r, ⟨max N N', fun n hn => ?_⟩, hr⟩
  rw [exec_bind, hN n (by omega)]
  exact hN' n (by omega)

theorem Total.discard {R : σ → Prop} (hm : Total P m (fun _ => R) E) :
    Total P (fun n => discard (m n)) (fun _ => R) E :=
  hm.bind fun _ => total_pure fun _ h => h

theorem Total.tryCatch {h : ε → ℕ → Prog σ ε α} (hm : Total P m Q E') (hh : ∀ e, Total (E' e) (h e) Q E) :
    Total P (fun n => tryCatch (m n) fun e => h e n) Q E := by
  intro s hs
  obtain ⟨⟨e | a, s'⟩, ⟨N, hN⟩, hends⟩ := hm s hs
  · obtain ⟨r, ⟨N', hN'⟩, hr⟩ := hh e s' hends
    refine ⟨r, ⟨max N N', fun n hn => ?_⟩, hr⟩
    rw [exec_tryCatch, hN n (by omega)]
    exact hN' n (by omega)
  · refine ⟨(.ok a, s'), ⟨N, fun n hn => ?_⟩, hends⟩
    rw [exec_tryCatch, hN n hn]

theorem total_forM {xs : List α} {f : α → ℕ → Prog σ ε PUnit} (hf : ∀ x ∈ xs, Total P (f x) (fun _ => P) E) :
    Total P (fun n => xs.forM fun x => f x n) (fun _ => P) E := by
  induction xs with
  | nil => exact total_pure fun _ hs => hs
  | cons x xs ih =>
    exact (hf x (by simp)).bind fun _ => ih fun y hy => hf y (by simp [hy])

theorem Total.comp (h : Total P m Q E) {f : ℕ → ℕ} (hf : ∀ n, n ≤ f n) : Total P (fun n => m (f n)) Q E := by
  intro s hs
  obtain ⟨r, ⟨N, hN⟩, hr⟩ := h s hs
  exact ⟨r, ⟨N, fun n hn => hN (f n) (Nat.le_trans hn (hf n))⟩, hr⟩

theorem Total.of_succ (h : Total P (fun n => m (n + 1)) Q E) : Total P m Q E := by
  intro s hs
  obtain ⟨r, ⟨N, hN⟩, hr⟩ := h s hs
  refine ⟨r, ⟨N + 1, fun n hn => ?_⟩, hr⟩
  obtain ⟨k, rfl⟩ : ∃ k, n = k + 1 := ⟨n - 1, by omega⟩
  exact hN k (by omega)

end Prog
end Lib
