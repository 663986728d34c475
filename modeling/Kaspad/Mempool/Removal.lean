import Kaspad.Mempool.OrphanRemoval
import Mathlib.Algebra.Order.BigOperators.Group.List
import Mathlib.Algebra.Order.Ring.Nat

/-! # Removing transactions from a consistent mempool

`removeTransaction` returns, whatever it is asked to remove: the walk over the redeemers ends since
every redeemer is deeper in the spending order than what it redeems. It leaves a consistent and, if
the transaction was there, smaller mempool.
-/

namespace Kaspad.Mempool
open Lib Lib.Prog List Option Nat GoMap OrphansPool

variable {S : Setup} {V : TransactionFacts}

def ReturnsError (S : Setup) (V : TransactionFacts) (e : Failure) (w : World) : Prop :=
  (∃ err, e = .error err) ∧ w.state.Consistent S V

/-- From `P` the calls return, with or without an error, in a consistent state. -/
abbrev Settles (S : Setup) (V : TransactionFacts) {α : Type} (P : World → Prop) (m : ℕ → M α) : Prop :=
  Total P m (fun _ w => w.state.Consistent S V) (ReturnsError S V)

/-! ## Rules for the primitive steps -/

section
variable {α : Type} {E : Failure → World → Prop} {P : State → Prop}

theorem total_getState_bind {k : State → ℕ → M α} {Q : α → World → Prop}
    (hk : ∀ s, P s → Total (fun w => w.state = s) (k s) Q E) :
    Total (fun w => P w.state) (fun n => getState >>= fun s => k s n) Q E := by
  intro w hw
  obtain ⟨r, ⟨N, hN⟩, hr⟩ := hk w.state hw w rfl
  exact ⟨r, ⟨N, hN⟩, hr⟩

theorem total_modifyState {R : State → Prop} {f : State → State} (h : ∀ s, P s → R (f s)) :
    Total (fun w => P w.state) (fun _ => modifyState f) (fun _ w => R w.state) E :=
  total_of_exec fun w hw => h w.state hw

theorem total_query (P : State → Prop) (f : Surroundings → α) : Total (fun w => P w.state) (fun _ => query S f)
      (fun a w => P w.state ∧ ∃ n, a = f (S.surroundings n)) E :=
  total_of_exec fun w hw => ⟨hw, w.queries, rfl⟩

theorem total_getVirtualDAAScore (hP : ∀ s, P s → s.Consistent S V) :
    Total (fun w => P w.state) (fun _ => getVirtualDAAScore S) (fun _ w => P w.state) (ReturnsError S V) := by
  refine (total_query P _).bind fun score => ?_
  cases score with
  | none => exact total_throw fun w hw => ⟨⟨_, rfl⟩, hP _ hw.1⟩
  | some score => exact total_pure fun w hw => hw.1

theorem total_ofExcept (hP : ∀ s, P s → s.Consistent S V) (r : Except MempoolError α) :
    Total (fun w => P w.state) (fun _ => ofExcept r) (fun a w => P w.state ∧ r = .ok a) (ReturnsError S V) := by
  cases r with
  | error e => exact total_throw fun w hw => ⟨⟨e, rfl⟩, hP _ hw⟩
  | ok a => exact total_pure fun w hw => ⟨hw, rfl⟩

theorem total_onOrphans {m : OrphansPool.O Unit} {s : State} {R : OrphansPool → Prop}
    (h : ∃ op, exec m s.orphansPool = (.ok (), op) ∧ R op) : Total (fun w => w.state = s) (fun _ => onOrphans m)
      (fun _ w => ∃ op, w.state = { s with orphansPool := op } ∧ R op) E := by
  obtain ⟨op, hexec, hop⟩ := h
  refine total_of_exec fun w hw => ?_
  subst hw
  have hrun : exec (onOrphans m) w = (.ok (), { w with state := { w.state with orphansPool := op } }) := by
    unfold onOrphans
    simp [getState, modifyState, exec_bind, hexec, -bind_pure_comp]
  rw [hrun]
  exact ⟨op, rfl, hop⟩

end

/-! ## The size of the mempool -/

def State.count (s : State) : ℕ :=
  GoMap.size s.transactionsPool.allTransactions + GoMap.size s.orphansPool.allOrphans

structure State.Shrunk (S : Setup) (V : TransactionFacts) (s s' : State) : Prop where
  consistent : s'.Consistent S V
  heap : s.heap.Grows V s'.heap
  count : s'.count ≤ s.count

variable {s : State} {E : Failure → World → Prop} (hs : s.Consistent S V)
include hs in
theorem State.Shrunk.refl : State.Shrunk S V s s :=
  ⟨hs, .refl V s.heap, le_refl _⟩

theorem State.Shrunk.trans {s' s'' : State} (h : s.Shrunk S V s') (h' : s'.Shrunk S V s'') : s.Shrunk S V s'' :=
  ⟨h'.consistent, h.heap.trans h'.heap, le_trans h'.count h.count⟩

include hs in
theorem State.Consistent.shrunk_orphans {op : OrphansPool} (h : s.orphansPool.Shed op) :
    s.Shrunk S V { s with orphansPool := op } := by
  refine ⟨hs.orphans_within h.within h.indexed, .refl V s.heap, ?_⟩
  have hsize := h.size
  unfold State.count
  dsimp only
  omega

variable {t : MempoolTransaction}
include hs in
theorem State.Consistent.shrunk_unregistered (ht : s.heap.Paid V t.transaction) :
    s.Shrunk S V (s.unregistered S t) ∧ ((s.transactionsPool.allTransactions.lookup t.id).isSome →
        (s.unregistered S t).count < s.count) := by
  have hcount : (s.unregistered S t).count = GoMap.size (s.transactionsPool.allTransactions.erase t.id) +
        GoMap.size s.orphansPool.allOrphans := by
    unfold State.count State.unregistered
    rw [removeTransaction_all]
  refine ⟨⟨(hs.unregistered ht).2, .refl V s.heap, ?_⟩, fun hin => ?_⟩
  · have hle := size_erase_le s.transactionsPool.allTransactions t.id
    rw [hcount]
    unfold State.count
    omega
  obtain ⟨x, hx⟩ := isSome_iff_exists.mp hin
  have hlt := size_erase hx
  rw [hcount]
  unfold State.count
  omega

/-! ## Removing one transaction -/

theorem total_clearOrphanInputs (removed : DomainTransaction) :
    Total (fun w => s.Shrunk S V w.state) (fun _ => clearOrphanInputs removed)
      (fun _ w => s.Shrunk S V w.state) E := by
  refine total_forM fun i _ => total_getState_bind fun s₁ hs₁ => ?_
  cases ho : s₁.orphansPool.orphansByPreviousOutpoint.lookup (removed.outpoint i) with
  | none => exact total_pure fun w hw => hw ▸ hs₁
  | some orphan =>
    have hheld := hs₁.consistent.orphanObjects (hs₁.consistent.orphans.owned ho).1
    refine total_of_exec fun w hw => ?_
    subst hw
    have hgrows := hheld.grows_update (p := { (w.state.heap.populated orphan.transaction.address) with
      utxoEntry := fun j =>
        if ((orphan.transaction.content.inputs[j]?).any
            fun input => input.previousOutpoint.transactionID = removed.id) then none
        else (w.state.heap.populated orphan.transaction.address).utxoEntry j }) rfl (.inl rfl)
      (hheld.fits.of_le fun j entry hentry => by
        dsimp only at hentry
        split at hentry
        · cases hentry
        · exact hentry)
    exact ⟨hs₁.consistent.grow hgrows, hs₁.heap.trans hgrows, hs₁.count⟩

theorem exec_removeTransactionFromSets {w : World} (hs : w.state.Consistent S V)
    (ht : w.state.heap.Paid V t.transaction) (removeRedeemers : Bool) :
    exec (removeTransactionFromSets S removeRedeemers t) w =
      exec (updateOrphansAfterTransactionRemoved t.transaction.content removeRedeemers) { w with
          state := w.state.unregistered S t, indexWrites := ⟨t, w.state⟩ :: w.indexWrites } := by
  unfold removeTransactionFromSets
  rw [exec_bind]
  have hget : exec getState w = (.ok w.state, w) := rfl
  rw [hget]
  dsimp only
  rw [exec_bind]
  have hwrite : exec (writeIndex t fun s => s.unregistered S t) w = (.ok ⟨⟩, { w with
      state := w.state.unregistered S t
      indexWrites := ⟨t, w.state⟩ :: w.indexWrites }) := rfl
  rw [hwrite, (hs.unregistered ht).1]
  rfl

include hs in
theorem total_removeTransactionFromSets (ht : s.heap.Paid V t.transaction) (removeRedeemers : Bool) :
    Total (fun w => w.state = s) (fun _ => removeTransactionFromSets S removeRedeemers t)
      (fun _ w => (s.unregistered S t).Shrunk S V w.state) E := by
  have hcons := (hs.unregistered ht).2
  intro w hw
  subst hw
  suffices h : Total (fun w' => w'.state = w.state.unregistered S t)
      (fun _ => updateOrphansAfterTransactionRemoved t.transaction.content removeRedeemers)
      (fun _ w' => (w.state.unregistered S t).Shrunk S V w'.state) E by
    obtain ⟨r, ⟨N, hN⟩, hr⟩ := h { w with
      state := w.state.unregistered S t
      indexWrites := ⟨t, w.state⟩ :: w.indexWrites } rfl
    exact ⟨r, ⟨N, fun n hn => (exec_removeTransactionFromSets hs ht removeRedeemers).trans (hN n hn)⟩, hr⟩
  cases removeRedeemers with
  | true =>
    refine (total_onOrphans (exec_removeRedeemersOf t.transaction.content _
      hcons.orphans)).post ?_
    rintro - w' ⟨op, hw', hshed⟩
    rw [hw']
    exact hcons.shrunk_orphans hshed.toShed
  | false =>
    refine (total_clearOrphanInputs t.transaction.content).pre fun w' hw' => ?_
    rw [hw']
    exact .refl hcons

/-! ## The walk over the redeemers -/

include hs in
theorem State.Consistent.depth_lt {id : DomainTransactionID}
    (ht : t ∈ (s.transactionsPool.chainedTransactionsByParentID.lookup id).getD []) : V.depth id < V.depth t.id := by
  cases hl : s.transactionsPool.chainedTransactionsByParentID.lookup id with
  | none => simp [hl] at ht
  | some l =>
    rw [hl, getD_some] at ht
    obtain ⟨hpaid, -, o, ho, rfl⟩ := hs.chained hl ht
    exact hpaid.admitted.depth o ho

variable (tp : TransactionsPool)

theorem exists_depth_bound (V : TransactionFacts) :
    ∃ D, ∀ id, ∀ t ∈ (tp.chainedTransactionsByParentID.lookup id).getD [], V.depth t.id ≤ D := by
  refine ⟨((tp.chainedTransactionsByParentID.entries.flatMap Sigma.snd).map
    fun t => V.depth t.id).sum, fun id t ht => le_sum_of_mem ?_⟩
  cases hl : tp.chainedTransactionsByParentID.lookup id with
  | none => simp [hl] at ht
  | some l =>
    rw [hl, getD_some] at ht
    exact mem_map.mpr ⟨t, mem_flatMap.mpr ⟨⟨id, l⟩, (mem_entries_iff _ _).mpr hl, ht⟩, rfl⟩

theorem getRedeemersLoop_pop (V : TransactionFacts) (D : ℕ)
    (hD : ∀ id, ∀ t ∈ (tp.chainedTransactionsByParentID.lookup id).getD [],
      V.depth id < V.depth t.id ∧ V.depth t.id ≤ D) (gap : ℕ) (t : MempoolTransaction)
    (hgap : D - V.depth t.id ≤ gap) (stack acc : List MempoolTransaction) :
    ∃ k acc', ∀ n, tp.getRedeemersLoop (n + k) (t :: stack) acc = tp.getRedeemersLoop n stack acc' := by
  -- A whole batch of transactions, each one done with after some rounds.
  have hbatch : ∀ (batch : List MempoolTransaction),
      (∀ x ∈ batch, ∀ stack acc, ∃ k acc', ∀ n, tp.getRedeemersLoop (n + k) (x :: stack) acc =
        tp.getRedeemersLoop n stack acc') →
      ∀ stack acc, ∃ k acc', ∀ n, tp.getRedeemersLoop (n + k) (batch ++ stack) acc =
        tp.getRedeemersLoop n stack acc' := by
    intro batch
    induction batch with
    | nil => exact fun _ stack acc => ⟨0, acc, fun n => rfl⟩
    | cons x batch ih =>
      intro hx stack acc
      obtain ⟨k₁, acc₁, h₁⟩ := hx x (by simp) (batch ++ stack) acc
      obtain ⟨k₂, acc₂, h₂⟩ := ih (fun y hy => hx y (by simp [hy])) stack acc₁
      refine ⟨k₂ + k₁, acc₂, fun n => ?_⟩
      rw [← add_assoc, cons_append, h₁, h₂]
  induction gap generalizing t stack acc with
  | zero =>
    have hnil : (tp.chainedTransactionsByParentID.lookup t.id).getD [] = [] := by
      refine eq_nil_iff_forall_not_mem.mpr fun x hx => ?_
      have := hD t.id x hx
      omega
    exact ⟨1, acc, fun n => by simp [TransactionsPool.getRedeemersLoop, hnil]⟩
  | succ gap ih =>
    obtain ⟨k, acc', h⟩ := hbatch ((tp.chainedTransactionsByParentID.lookup t.id).getD []).reverse
      (fun x hx stack acc => by
        have hx' := hD t.id x (mem_reverse.mp hx)
        exact ih x (by omega) stack acc)
      stack (acc ++ (tp.chainedTransactionsByParentID.lookup t.id).getD [])
    refine ⟨k + 1, acc', fun n => ?_⟩
    rw [← add_assoc, TransactionsPool.getRedeemersLoop]
    exact h n

include hs

theorem State.Consistent.getRedeemers_ends (t : MempoolTransaction) :
    ∃ N redeemers, ∀ n, N ≤ n → s.transactionsPool.getRedeemers n t = some redeemers := by
  obtain ⟨D, hD⟩ := exists_depth_bound s.transactionsPool V
  obtain ⟨k, acc, h⟩ := getRedeemersLoop_pop s.transactionsPool V D
    (fun id x hx => ⟨hs.depth_lt hx, hD id x hx⟩) (D - V.depth t.id) t (le_refl _) [] []
  refine ⟨k, acc, fun n hn => ?_⟩
  obtain ⟨m, rfl⟩ : ∃ m, n = m + k := ⟨n - k, by omega⟩
  unfold TransactionsPool.getRedeemers
  rw [h]
  cases m <;> rfl

theorem State.Consistent.paid_redeemers {n : ℕ} {x : MempoolTransaction}
    {redeemers : List MempoolTransaction} (h : s.transactionsPool.getRedeemers n t = some redeemers)
    (hx : x ∈ redeemers) : s.heap.Paid V x.transaction := by
  obtain ⟨k, l, hl, hxl⟩ := TransactionsPool.mem_getRedeemers _ _ h hx
  exact (hs.chained hl hxl).1

omit hs

theorem total_forM_removeTransactionFromSets {ts : List MempoolTransaction}
    (hts : ∀ t ∈ ts, s.heap.Paid V t.transaction) (removeRedeemers : Bool) : Total (fun w => s.Shrunk S V w.state)
      (fun _ => ts.forM (removeTransactionFromSets S removeRedeemers)) (fun _ w => s.Shrunk S V w.state) E := by
  refine total_forM fun t ht w hw => ?_
  have hpaid := (hts t ht).grow hw.heap
  refine ((total_removeTransactionFromSets hw.consistent hpaid removeRedeemers).post (fun _ w' hw' => ?_)) w rfl
  exact hw.trans ((hw.consistent.shrunk_unregistered hpaid).1.trans hw')

include hs in
/-- A removal ends, with a smaller pool if the transaction was in it. -/
theorem total_removeTransaction (id : DomainTransactionID) (removeRedeemers : Bool) :
    Total (fun w => w.state = s) (fun n => removeTransaction S n id removeRedeemers)
      (fun _ w => s.Shrunk S V w.state ∧
        ((s.transactionsPool.allTransactions.lookup id).isSome → w.state.count < s.count)) E := by
  refine total_getState_bind (P := (· = s)) ?_
  rintro s rfl
  cases ho : s.orphansPool.allOrphans.lookup id with
  | some orphan =>
    refine (total_onOrphans (exec_removeOrphan id true s.orphansPool hs.orphans)).post ?_
    rintro - w ⟨op, hw, hop, -⟩
    rw [hw]
    refine ⟨hs.shrunk_orphans hop.toShed, fun _ => ?_⟩
    have hlt := hop.smaller (by simp [ho])
    unfold State.count
    dsimp only
    omega
  | none =>
    cases ht : s.transactionsPool.allTransactions.lookup id with
    | none =>
      refine total_pure fun w hw => ⟨?_, by simp⟩
      rw [hw]
      exact .refl hs
    | some t =>
      obtain ⟨N, redeemers, hN⟩ := hs.getRedeemers_ends t
      have hpaid := hs.paid ht
      have hkey := hs.key ht
      have hin : (s.transactionsPool.allTransactions.lookup t.id).isSome := by rw [hkey, ht]; rfl
      obtain ⟨hshrunk, hless⟩ := hs.shrunk_unregistered hpaid
      -- From round N on the redeemers are known.
      suffices h : Total (fun w => w.state = s) (fun _ =>
          if removeRedeemers then (do
            (t :: redeemers).forM (removeTransactionFromSets S true)
            onOrphans (OrphansPool.removeRedeemersOf t.transaction.content))
          else (do
            redeemers.forM (removeParentTransactionInPool id)
            removeTransactionFromSets S false t))
          (fun _ w => (s.unregistered S t).Shrunk S V w.state) E by
        intro w hw
        obtain ⟨⟨e | a, w'⟩, ⟨N', hN'⟩, hr⟩ := h w hw
        · refine ⟨(.error e, w'), ⟨max N N', fun n hn => ?_⟩, hr⟩
          simp only [hN n (by omega)]
          exact hN' n (by omega)
        refine ⟨(.ok a, w'), ⟨max N N', fun n hn => ?_⟩, hshrunk.trans hr, fun _ => ?_⟩
        · simp only [hN n (by omega)]
          exact hN' n (by omega)
        · exact lt_of_le_of_lt hr.count (hless hin)
      have hredeemers : ∀ x ∈ redeemers, s.heap.Paid V x.transaction :=
        fun x => hs.paid_redeemers (hN N (le_refl _))
      cases removeRedeemers with
      | true =>
        refine ((total_removeTransactionFromSets hs hpaid true).bind fun _ =>
          total_forM_removeTransactionFromSets (s := s.unregistered S t) hredeemers true).bind
          fun _ w hw => ?_
        refine ((total_onOrphans (exec_removeRedeemersOf t.transaction.content _
          hw.consistent.orphans)).post ?_) w rfl
        rintro - w' ⟨op, hw', hshed⟩
        rw [hw']
        exact hw.trans (hw.consistent.shrunk_orphans hshed.toShed)
      | false =>
        have hinit : ∀ w : World, w.state = s → ∃ parents,
            w.state = { s with heap.parentTransactionsInPool := parents } := fun w hw => ⟨_, hw⟩
        refine ((total_forM fun x _ => ?_).pre hinit).bind fun _ w hw => ?_
        · refine total_of_exec fun w hw => ?_
          obtain ⟨parents, hw⟩ := hw
          refine ⟨Function.update parents x.address ((parents x.address).erase id), ?_⟩
          dsimp only
          rw [hw]
        obtain ⟨parents, hw⟩ := hw
        have hgrows : s.heap.Grows V { s.heap with parentTransactionsInPool := parents } :=
          ⟨le_refl _, fun _ _ => rfl, fun _ _ => rfl, fun _ _ => .inl rfl, fun _ _ h => h⟩
        have hcons := hw ▸ hs.grow hgrows
        have hpaid' : w.state.heap.Paid V t.transaction := hw ▸ hpaid.grow hgrows
        refine ((total_removeTransactionFromSets hcons hpaid' false).post (fun _ w' hw' => ?_)) w rfl
        refine State.Shrunk.trans ⟨(hcons.unregistered hpaid').2, ?_, ?_⟩ hw'
        · rw [hw]
          exact hgrows
        unfold State.count State.unregistered
        rw [removeTransaction_all, removeTransaction_all, hw]

end Kaspad.Mempool
