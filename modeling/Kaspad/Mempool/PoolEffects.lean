import Kaspad.Lib.StackWalk
import Kaspad.Mempool.Operations
import Mathlib.Data.List.Induction

/-! # What the pools hold after a change

One lemma for each write to a map of the mempool, saying what a lookup finds afterwards, and the
fact that removing orphans only shrinks the orphan pool.
-/

namespace Kaspad.Mempool
open Lib Lib.Prog GoMap List

/-! ## The double-spend index -/

variable (t : MempoolTransaction)

theorem lookup_addInputs (i : ℕ) (inputs : List DomainTransactionInput) (mpus : MempoolUTXOSet) (o : DomainOutpoint) :
    (MempoolUTXOSet.addInputs t i inputs mpus).transactionByPreviousOutpoint.lookup o =
      if o ∈ inputs.map (·.previousOutpoint) then some t else mpus.transactionByPreviousOutpoint.lookup o := by
  induction inputs generalizing i mpus with
  | nil => simp [MempoolUTXOSet.addInputs]
  | cons input inputs ih =>
    unfold MempoolUTXOSet.addInputs
    by_cases ho : o = input.previousOutpoint <;>
      by_cases hm : o ∈ inputs.map (·.previousOutpoint) <;> simp_all

theorem addOutputs_index (i : ℕ) (outputs : List DomainTransactionOutput) (mpus : MempoolUTXOSet) :
    (MempoolUTXOSet.addOutputs t i outputs mpus).transactionByPreviousOutpoint =
      mpus.transactionByPreviousOutpoint := by
  induction outputs generalizing i mpus with
  | nil => rfl
  | cons output outputs ih =>
    unfold MempoolUTXOSet.addOutputs
    rw [ih]

variable (mpus : MempoolUTXOSet)

theorem lookup_addTransaction (t : MempoolTransaction) (o : DomainOutpoint) :
    (mpus.addTransaction t).transactionByPreviousOutpoint.lookup o =
      if o ∈ t.outpoints then some t else mpus.transactionByPreviousOutpoint.lookup o := by
  unfold MempoolUTXOSet.addTransaction
  rw [addOutputs_index, lookup_addInputs]
  rfl

variable (tp : TransactionsPool)

theorem lookup_removeInputs (utxoEntry : ℕ → Option UTXOEntry) (i : ℕ)
    (inputs : List DomainTransactionInput) (mpus : MempoolUTXOSet) (o : DomainOutpoint) :
    (MempoolUTXOSet.removeInputs tp utxoEntry i inputs mpus).transactionByPreviousOutpoint.lookup o =
      if o ∈ inputs.map (·.previousOutpoint) then none else mpus.transactionByPreviousOutpoint.lookup o := by
  induction inputs generalizing i mpus with
  | nil => simp [MempoolUTXOSet.removeInputs]
  | cons input inputs ih =>
    unfold MempoolUTXOSet.removeInputs
    by_cases ho : o = input.previousOutpoint <;>
      by_cases hm : o ∈ inputs.map (·.previousOutpoint) <;> simp_all

/-! ## The transactions pool -/

theorem removeTransaction_all (S : Setup) (heap : Heap) (tp : TransactionsPool) (t : MempoolTransaction) :
    (tp.removeTransaction S heap t).2.allTransactions = tp.allTransactions.erase t.id := by
  unfold TransactionsPool.removeTransaction
  split <;> rfl

variable {l : List MempoolTransaction}

theorem removeTransaction_chained (S : Setup) (heap : Heap) (tp : TransactionsPool)
    (t : MempoolTransaction) {id : DomainTransactionID}
    (h : (tp.removeTransaction S heap t).2.chainedTransactionsByParentID.lookup id = some l) :
    tp.chainedTransactionsByParentID.lookup id = some l := by
  unfold TransactionsPool.removeTransaction at h
  split at h
  · exact (of_lookup_delete h).2
  · exact (of_lookup_delete h).2
  · exact h

variable {x : MempoolTransaction}

theorem mem_register_chained (parents : GoMap DomainTransactionID MempoolTransaction)
    (t : MempoolTransaction) {id : DomainTransactionID}
    (h : (tp.register parents t).chainedTransactionsByParentID.lookup id = some l) (hx : x ∈ l) :
    (x = t ∧ ∃ e ∈ parents.entries, e.2.id = id) ∨
      ∃ l', tp.chainedTransactionsByParentID.lookup id = some l' ∧ x ∈ l' := by
  unfold TransactionsPool.register at h
  generalize tp.chainedTransactionsByParentID = chained at h ⊢
  revert h
  generalize parents.entries = entries
  intro h
  induction entries generalizing chained with
  | nil => exact .inr ⟨l, h, hx⟩
  | cons e entries ih =>
    obtain ⟨rfl, e', he', hid'⟩ | ⟨l', hl', hx'⟩ := ih _ h
    · exact .inl ⟨rfl, e', by simp [he'], hid'⟩
    obtain ⟨hid, rfl⟩ | hl' := of_lookup_set hl'
    · rcases mem_append.mp hx' with hx' | hx'
      · cases hc : chained.lookup e.2.id with
        | none => simp [hc] at hx'
        | some l'' => exact .inr ⟨l'', hid ▸ hc, by simpa [hc] using hx'⟩
      · exact .inl ⟨by simpa using hx', e, by simp, hid.symm⟩
    · exact .inr ⟨l', hl', hx'⟩

theorem lookup_getParentTransactionsInPool
    (hkey : ∀ {id t}, tp.allTransactions.lookup id = some t → t.id = id) (tx : DomainTransaction)
    (k : DomainTransactionID) : (tp.getParentTransactionsInPool tx).lookup k =
      if k ∈ tx.outpoints.map (·.transactionID) then tp.allTransactions.lookup k else none := by
  unfold TransactionsPool.getParentTransactionsInPool DomainTransaction.outpoints
  generalize tx.inputs = inputs
  induction inputs using reverseRecOn with
  | nil => simp
  | append_singleton inputs input ih =>
    rw [foldl_append, foldl_cons, foldl_nil, map_append, map_append]
    obtain rfl | hk := eq_or_ne k input.previousOutpoint.transactionID
    · cases hp : tp.allTransactions.lookup input.previousOutpoint.transactionID with
      | none => simp [ih, hp]
      | some parent => simp [hkey hp]
    · cases hp : tp.allTransactions.lookup input.previousOutpoint.transactionID with
      | none => simp [ih, hk]
      | some parent => simp [ih, hk, hkey hp]

namespace TransactionsPool

def chained (tp : TransactionsPool) (t : MempoolTransaction) : List MempoolTransaction :=
  (tp.chainedTransactionsByParentID.lookup t.id).getD []

theorem mem_chained {tp : TransactionsPool} {t x : MempoolTransaction} : x ∈ tp.chained t ↔
    ∃ l, tp.chainedTransactionsByParentID.lookup t.id = some l ∧ x ∈ l := by
  unfold chained
  cases tp.chainedTransactionsByParentID.lookup t.id <;> simp

theorem getRedeemersLoop_eq_walk (rounds : ℕ) (stack redeemers : List MempoolTransaction) :
    tp.getRedeemersLoop rounds stack redeemers = StackWalk.walk tp.chained rounds stack redeemers := by
  induction rounds generalizing stack redeemers with
  | zero => cases stack <;> rfl
  | succ rounds ih =>
    cases stack with
    | nil => rfl
    | cons current stack =>
      exact ih _ _

theorem mem_getRedeemers {rounds : ℕ} {redeemers : List MempoolTransaction}
    (h : tp.getRedeemers rounds t = some redeemers) (hx : x ∈ redeemers) :
    ∃ id l, tp.chainedTransactionsByParentID.lookup id = some l ∧ x ∈ l := by
  unfold getRedeemers at h
  rw [getRedeemersLoop_eq_walk] at h
  obtain ⟨⟨taken, rfl, -⟩, -⟩ := StackWalk.walk_root h
  obtain ⟨y, -, hy⟩ := mem_flatMap.mp hx
  exact ⟨y.id, mem_chained.mp hy⟩

end TransactionsPool

section
variable {S : Setup} {s : State} {t x : MempoolTransaction} {id : DomainTransactionID}

theorem lookup_registered (s : State) (t : MempoolTransaction) (id : DomainTransactionID) :
    (s.registered t).transactionsPool.allTransactions.lookup id =
      if id = t.id then some t else s.transactionsPool.allTransactions.lookup id :=
  lookup_set _ _ _ _

theorem of_lookup_registered (h : (s.registered t).transactionsPool.allTransactions.lookup id = some x) :
    id = t.id ∧ x = t ∨ s.transactionsPool.allTransactions.lookup id = some x :=
  of_lookup_set h

theorem lookup_unregistered (S : Setup) (id : DomainTransactionID) :
    (s.unregistered S t).transactionsPool.allTransactions.lookup id =
      if id = t.id then none else s.transactionsPool.allTransactions.lookup id := by
  unfold State.unregistered
  rw [removeTransaction_all, lookup_delete]

theorem of_lookup_unregistered (h : (s.unregistered S t).transactionsPool.allTransactions.lookup id = some x) :
    id ≠ t.id ∧ s.transactionsPool.allTransactions.lookup id = some x := by
  unfold State.unregistered at h
  rw [removeTransaction_all] at h
  exact of_lookup_delete h

end

/-! ## The orphan pool -/

def OrphansPool.Within (op₀ op : OrphansPool) : Prop :=
  (∀ id o, op.allOrphans.lookup id = some o → op₀.allOrphans.lookup id = some o) ∧
    ∀ p o, op.orphansByPreviousOutpoint.lookup p = some o → op₀.orphansByPreviousOutpoint.lookup p = some o

variable (op₀ : OrphansPool)

theorem within_removeInputs (id : DomainTransactionID) (i : ℕ) (inputs : List DomainTransactionInput) :
    Keeps op₀.Within (OrphansPool.removeInputs id i inputs) := by
  induction inputs generalizing i with
  | nil => exact keeps_pure _
  | cons input inputs ih =>
    refine keeps_get_bind fun op _ => ?_
    split
    on_goal 1 => refine (keeps_throw _).bind fun _ => ?_
    all_goals
      exact (keeps_modify fun op hop => ⟨hop.1, fun p o h =>
        hop.2 p o (of_lookup_delete h).2⟩).bind fun _ => ih (i + 1)

theorem within_forRedeemersOf (remove : DomainTransactionID → OrphansPool.O Unit)
    (h : ∀ id, Keeps op₀.Within (remove id)) (tx : DomainTransaction) :
    Keeps op₀.Within (OrphansPool.forRedeemersOf remove tx) := by
  refine keeps_forM fun i _ => keeps_get_bind fun op _ => ?_
  split
  · exact h _
  · exact keeps_pure _

theorem within_removeOrphanBounded (depth : ℕ) (id : DomainTransactionID) (removeRedeemers : Bool) :
    Keeps op₀.Within (OrphansPool.removeOrphanBounded depth id removeRedeemers) := by
  induction depth generalizing id removeRedeemers with
  | zero =>
    refine keeps_get_bind fun op _ => ?_
    split
    · exact keeps_throw _
    · exact keeps_pure _
  | succ depth ih =>
    refine keeps_get_bind fun op _ => ?_
    split
    · exact keeps_pure _
    rename_i orphan _
    refine (keeps_modify fun op hop => ⟨fun k o h => hop.1 k o (of_lookup_delete h).2,
      hop.2⟩).bind fun _ => (within_removeInputs op₀ id 0 _).bind fun _ => ?_
    split
    · exact within_forRedeemersOf op₀ _ (fun redeemer => ih redeemer true) _
    · exact keeps_pure _

theorem within_removeOrphan (id : DomainTransactionID) (removeRedeemers : Bool) :
    Keeps op₀.Within (OrphansPool.removeOrphan id removeRedeemers) :=
  keeps_get_bind fun _ _ => within_removeOrphanBounded op₀ _ id removeRedeemers

theorem within_removeRedeemersOf (tx : DomainTransaction) : Keeps op₀.Within (OrphansPool.removeRedeemersOf tx) :=
  within_forRedeemersOf op₀ _ (fun redeemer => within_removeOrphan op₀ redeemer true) tx

theorem lookup_insertOrphan (op : OrphansPool) (orphan : OrphanTransaction) (p : DomainOutpoint) :
    (op.insertOrphan orphan).orphansByPreviousOutpoint.lookup p =
      if p ∈ orphan.transaction.content.outpoints then some orphan else op.orphansByPreviousOutpoint.lookup p := by
  unfold OrphansPool.insertOrphan DomainTransaction.outpoints
  generalize op.orphansByPreviousOutpoint = orphans
  generalize orphan.transaction.content.inputs = inputs
  induction inputs generalizing orphans with
  | nil => simp
  | cons input inputs ih =>
    by_cases hp : p = input.previousOutpoint <;>
      by_cases hm : p ∈ inputs.map (·.previousOutpoint) <;> simp_all

theorem of_lookup_insertOrphan {op : OrphansPool} {orphan o : OrphanTransaction} {p : DomainOutpoint}
    (h : (op.insertOrphan orphan).orphansByPreviousOutpoint.lookup p = some o) :
    p ∈ orphan.transaction.content.outpoints ∧ o = orphan ∨ op.orphansByPreviousOutpoint.lookup p = some o := by
  rw [lookup_insertOrphan] at h
  split_ifs at h with hp
  · exact .inl ⟨hp, (Option.some.inj h).symm⟩
  · exact .inr h

end Kaspad.Mempool
