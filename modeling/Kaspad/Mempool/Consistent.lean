import Kaspad.Mempool.PoolEffects
import Mathlib.Data.Prod.Lex

/-! # A consistent mempool

The invariant that the bookkeeping of the mempool keeps when consensus answers consistently and
every transaction pays a fee: the list ordered by fee rate holds exactly the transactions of the
pool, the orphan index holds exactly the inputs of the orphans, and no transaction is in both
pools.
-/

namespace Kaspad.Mempool
open Lib Lib.Prog List GoMap

/-- What the ID of a transaction determines: the outpoints it spends, the amounts of its outputs, its fee, its
mass, and its place in an order in which it comes after the transactions that it spends. A signature script counts
for the mass and not for the ID, so the mass is determined only among the transactions that are submitted. -/
structure TransactionFacts where
  submitted : DomainTransaction → Prop
  outpoints : DomainTransactionID → List DomainOutpoint
  amount : DomainOutpoint → Option ℕ
  fee : DomainTransactionID → ℕ
  mass : DomainTransactionID → ℕ
  depth : DomainTransactionID → ℕ

/-- The entries that the inputs have are of outputs that exist, with their amounts. -/
def TransactionFacts.Fits (V : TransactionFacts) (tx : DomainTransaction) (p : Populated) : Prop :=
  ∀ j input entry, tx.inputs[j]? = some input → p.utxoEntry j = some entry →
    V.amount input.previousOutpoint = some entry.amount

def TransactionFacts.Pays (V : TransactionFacts) (tx : DomainTransaction) : Prop :=
  ∀ i, V.amount (tx.outpoint i) = (tx.outputs[i]?).map (·.value)

/-- Consensus computes these masses and, for right entries, these fees; it fills in right entries; a transaction
that it accepts gets a fee and all entries; it reports missing outputs only of transactions without duplicate
inputs. -/
structure ConsensusAgrees (V : TransactionFacts) (S : Setup) : Prop where
  mass : ∀ n tx, V.submitted tx → (S.surroundings n).transactionMass tx = V.mass tx.id
  fee : ∀ n tx p f, V.submitted tx → V.Fits tx p → ((S.surroundings n).validate tx p).fee = some f → f = V.fee tx.id
  fits : ∀ n tx p, V.submitted tx → V.Fits tx p → V.Fits tx (((S.surroundings n).validate tx p).populate tx p)
  accepts : ∀ n tx p, ((S.surroundings n).validate tx p).error = none →
    ((S.surroundings n).validate tx p).fee.isSome ∧ ∀ i < tx.inputs.length,
        ((((S.surroundings n).validate tx p).populate tx p).utxoEntry i).isSome
  misses : ∀ n tx p outpoints, ((S.surroundings n).validate tx p).error = some (.missingTxOut outpoints) →
      outpoints ≠ [] ∧ tx.outpoints.Nodup

structure TransactionFacts.Admits (V : TransactionFacts) (tx : DomainTransaction) : Prop where
  submitted : V.submitted tx
  outpoints : tx.outpoints = V.outpoints tx.id
  pays : V.Pays tx
  fee : V.fee tx.id ≠ 0
  mass : V.mass tx.id ≠ 0
  depth : ∀ o ∈ tx.outpoints, V.depth o.transactionID < V.depth tx.id

/-! ## Objects -/

structure Heap.Holds (V : TransactionFacts) (h : Heap) (tx : TransactionPointer) : Prop where
  allocated : tx.address < h.nextAddress
  content : h.content tx.address = tx.content
  mass : (h.populated tx.address).mass = V.mass tx.content.id
  fits : V.Fits tx.content (h.populated tx.address)
  admitted : V.Admits tx.content

/-- The transaction at the address has its fee, and what it spends exists. -/
structure Heap.Paid (V : TransactionFacts) (h : Heap) (tx : TransactionPointer) : Prop
    extends Heap.Holds V h tx where
  fee : (h.populated tx.address).fee = V.fee tx.content.id
  exist : ∀ o ∈ tx.content.outpoints, (V.amount o).isSome

structure Heap.Grows (V : TransactionFacts) (h h' : Heap) : Prop where
  next : h.nextAddress ≤ h'.nextAddress
  content : ∀ a < h.nextAddress, h'.content a = h.content a
  mass : ∀ a < h.nextAddress, (h'.populated a).mass = (h.populated a).mass
  fee : ∀ a < h.nextAddress, (h'.populated a).fee = (h.populated a).fee ∨
    (h'.populated a).fee = V.fee (h.content a).id
  fits : ∀ a < h.nextAddress, V.Fits (h.content a) (h.populated a) → V.Fits (h.content a) (h'.populated a)

section
variable {V : TransactionFacts} {h h' h'' : Heap} {tx : TransactionPointer}

theorem TransactionFacts.Fits.of_le {tx : DomainTransaction} {p p' : Populated} (h : V.Fits tx p)
    (hle : ∀ j entry, p'.utxoEntry j = some entry → p.utxoEntry j = some entry) : V.Fits tx p' :=
  fun j input entry hinput hentry => h j input entry hinput (hle j entry hentry)

theorem TransactionFacts.Fits.update {tx : DomainTransaction} {p : Populated} (h : V.Fits tx p) {j : ℕ}
    {entry : UTXOEntry} (hj : ∀ input, tx.inputs[j]? = some input → V.amount input.previousOutpoint = some entry.amount) :
    V.Fits tx { p with utxoEntry := Function.update p.utxoEntry j (some entry) } := by
  intro k input entry' hinput hentry
  dsimp only at hentry
  by_cases hk : k = j
  · subst hk
    rw [Function.update_self, Option.some.injEq] at hentry
    exact hentry ▸ hj input hinput
  · rw [Function.update_of_ne hk] at hentry
    exact h k input entry' hinput hentry

theorem Heap.Grows.refl (V : TransactionFacts) (h : Heap) : Heap.Grows V h h :=
  ⟨Nat.le_refl _, fun _ _ => rfl, fun _ _ => rfl, fun _ _ => .inl rfl, fun _ _ h => h⟩

theorem Heap.Grows.trans (hg : h.Grows V h') (hg' : h'.Grows V h'') : h.Grows V h'' where
  next := Nat.le_trans hg.next hg'.next
  content a ha := by rw [hg'.content a (Nat.lt_of_lt_of_le ha hg.next), hg.content a ha]
  mass a ha := by rw [hg'.mass a (Nat.lt_of_lt_of_le ha hg.next), hg.mass a ha]
  fee a ha := by
    rcases hg'.fee a (Nat.lt_of_lt_of_le ha hg.next) with h | h
    · rw [h]
      exact hg.fee a ha
    rw [h, hg.content a ha]
    exact .inr rfl
  fits a ha hfits := by
    have hfits' := hg'.fits a (Nat.lt_of_lt_of_le ha hg.next)
    rw [hg.content a ha] at hfits'
    exact hfits' (hg.fits a ha hfits)

theorem Heap.Holds.grow (ht : h.Holds V tx) (hg : h.Grows V h') : h'.Holds V tx where
  allocated := Nat.lt_of_lt_of_le ht.allocated hg.next
  content := by rw [hg.content _ ht.allocated, ht.content]
  mass := by rw [hg.mass _ ht.allocated, ht.mass]
  fits := ht.content ▸ hg.fits _ ht.allocated (ht.content.symm ▸ ht.fits)
  admitted := ht.admitted

theorem Heap.Paid.grow (ht : h.Paid V tx) (hg : h.Grows V h') : h'.Paid V tx where
  toHolds := ht.toHolds.grow hg
  fee := by
    rcases hg.fee _ ht.allocated with heq | heq
    · rw [heq, ht.fee]
    · rw [heq, ht.content]
  exist := ht.exist

theorem Heap.Holds.grows_update (ht : h.Holds V tx) {p : Populated} (hmass : p.mass = (h.populated tx.address).mass)
    (hfee : p.fee = (h.populated tx.address).fee ∨ p.fee = V.fee tx.content.id) (hfits : V.Fits tx.content p) :
    h.Grows V { h with populated := Function.update h.populated tx.address p } where
  next := Nat.le_refl _
  content _ _ := rfl
  mass a _ := by
    by_cases ha : a = tx.address
    · subst ha
      simpa using hmass
    · simp [ha]
  fee a _ := by
    by_cases ha : a = tx.address
    · subst ha
      simpa [ht.content] using hfee
    · simp [ha]
  fits a _ h := by
    by_cases ha : a = tx.address
    · subst ha
      simpa [ht.content] using hfits
    · simpa [ha] using h

end

/-! ## The invariant -/

/-- The order of the list: by fee rate, then by identifier. -/
def rateKey (S : Setup) (V : TransactionFacts) (t : MempoolTransaction) : ℚ ×ₗ ℕ :=
  toLex (S.feeRate (V.fee t.id) (V.mass t.id), t.id)

variable {V : TransactionFacts} {t t' : MempoolTransaction}

theorem rateKey_eq {S : Setup} (h : t.id = t'.id) : rateKey S V t = rateKey S V t' := by
  unfold rateKey
  rw [h]

structure OrphansPool.Indexed (op : OrphansPool) : Prop where
  key : ∀ {id o}, op.allOrphans.lookup id = some o → o.id = id
  nodup : ∀ {id o}, op.allOrphans.lookup id = some o → o.transaction.content.outpoints.Nodup
  listed : ∀ {id o}, op.allOrphans.lookup id = some o → ∀ p ∈ o.transaction.content.outpoints,
    op.orphansByPreviousOutpoint.lookup p = some o
  owned : ∀ {p o}, op.orphansByPreviousOutpoint.lookup p = some o →
    op.allOrphans.lookup o.id = some o ∧ p ∈ o.transaction.content.outpoints

structure State.Consistent (S : Setup) (V : TransactionFacts) (s : State) : Prop where
  key : ∀ {id t}, s.transactionsPool.allTransactions.lookup id = some t → t.id = id
  listed : ∀ t, t ∈ s.transactionsPool.transactionsOrderedByFeeRate ↔
    s.transactionsPool.allTransactions.lookup t.id = some t
  sorted : SortedBy (rateKey S V) s.transactionsPool.transactionsOrderedByFeeRate
  paid : ∀ {id t}, s.transactionsPool.allTransactions.lookup id = some t → s.heap.Paid V t.transaction
  chained : ∀ {id l t}, s.transactionsPool.chainedTransactionsByParentID.lookup id = some l →
    t ∈ l → s.heap.Paid V t.transaction ∧ (s.transactionsPool.allTransactions.lookup id).isSome ∧
      ∃ o ∈ t.outpoints, o.transactionID = id
  highPriority : ∀ {id t}, s.transactionsPool.highPriorityTransactions.lookup id = some t →
    s.heap.Holds V t.transaction
  orphans : s.orphansPool.Indexed
  orphanObjects : ∀ {id o}, s.orphansPool.allOrphans.lookup id = some o → s.heap.Holds V o.transaction
  apart : ∀ {id o}, s.orphansPool.allOrphans.lookup id = some o → s.transactionsPool.allTransactions.lookup id = none

theorem consistent_new (S : Setup) (V : TransactionFacts) : State.new.Consistent S V := by
  constructor <;> intros <;> simp_all [State.new, SortedBy]
  constructor <;> intros <;> simp_all

variable {S : Setup} {V : TransactionFacts} {s : State} (hs : s.Consistent S V)
include hs

theorem State.Consistent.grow {h' : Heap} (hg : s.heap.Grows V h') : State.Consistent S V { s with heap := h' } where
  key := hs.key
  listed := hs.listed
  sorted := hs.sorted
  paid ht := (hs.paid ht).grow hg
  chained hl ht := ⟨(hs.chained hl ht).1.grow hg, (hs.chained hl ht).2⟩
  highPriority ht := (hs.highPriority ht).grow hg
  orphans := hs.orphans
  orphanObjects ho := (hs.orphanObjects ho).grow hg
  apart := hs.apart

theorem State.Consistent.orphans_within {op : OrphansPool} (hw : s.orphansPool.Within op) (hi : op.Indexed) :
    State.Consistent S V { s with orphansPool := op } where
  key := hs.key
  listed := hs.listed
  sorted := hs.sorted
  paid := hs.paid
  chained := hs.chained
  highPriority := hs.highPriority
  orphans := hi
  orphanObjects ho := hs.orphanObjects (hw.1 _ _ ho)
  apart ho := hs.apart (hw.1 _ _ ho)

omit hs

/-! ## The list ordered by fee rate -/

variable {t : MempoolTransaction} {slice : List MempoolTransaction} {h : Heap} (ht : h.Paid V t.transaction)
include ht

theorem feeRateOf_eq : feeRateOf S h t = S.feeRate (V.fee t.id) (V.mass t.id) := by
  unfold feeRateOf
  rw [ht.fee, ht.mass]
  rfl

variable (hslice : ∀ e ∈ slice, h.Paid V e.transaction)
include hslice

theorem findTransactionIndex_eq : findTransactionIndex S h slice t = .ok (place (rateKey S V) slice (rateKey S V t),
        (slice[place (rateKey S V) slice (rateKey S V t)]?).any fun e => e.id = t.id) := by
  have hpopulated : ¬ ((h.populated t.transaction.address).fee = 0 ∨
      (h.populated t.transaction.address).mass = 0) := by
    rw [ht.fee, ht.mass]
    exact not_or.mpr ⟨ht.admitted.fee, ht.admitted.mass⟩
  have hpred : (fun i : ℕ => (slice[i]?).any (notBefore S h t)) =
      fun i : ℕ => (slice[i]?).any fun e => decide (rateKey S V t ≤ rateKey S V e) := by
    funext i
    cases hi : slice[i]? with
    | none => rfl
    | some e =>
      have he := hslice e (mem_of_getElem? hi)
      unfold notBefore rateKey
      simp only [Option.any_some, feeRateOf_eq ht, feeRateOf_eq he, Prod.Lex.toLex_le_toLex]
      rw [Bool.eq_iff_iff]
      simp only [Bool.or_eq_true, Bool.and_eq_true, decide_eq_true_eq]
      exact or_congr_right (and_congr_left' eq_comm)
  unfold findTransactionIndex
  simp only [if_neg hpopulated, hpred]
  rfl

theorem pushOrdered_eq : ∃ i, i = place (rateKey S V) slice (rateKey S V t) ∧
      pushOrdered S h slice t = .ok (slice.take i ++ t :: slice.drop i) := by
  refine ⟨_, rfl, ?_⟩
  unfold pushOrdered
  rw [findTransactionIndex_eq ht hslice]
  rfl

omit ht hslice

theorem removeOrdered_listed {e : MempoolTransaction} (hsorted : SortedBy (rateKey S V) slice)
    (ht : h.Paid V t.transaction) (hslice : ∀ e ∈ slice, h.Paid V e.transaction) (he : e ∈ slice)
    (hid : e.id = t.id) :
    removeOrdered S h slice t = .ok (slice.eraseIdx (place (rateKey S V) slice (rateKey S V e))) := by
  unfold removeOrdered
  rw [findTransactionIndex_eq ht hslice, ← rateKey_eq hid, hsorted.getElem?_place he]
  simp [bind, Except.bind, hid, pure, Except.pure]

include ht hslice in
theorem removeOrdered_unlisted (hid : ∀ e ∈ slice, e.id ≠ t.id) :
    removeOrdered S h slice t = .error (.transactionNotFound t.id) := by
  unfold removeOrdered
  rw [findTransactionIndex_eq ht hslice]
  cases hget : slice[place (rateKey S V) slice (rateKey S V t)]? with
  | none => rfl
  | some e =>
    have hne := hid e (mem_of_getElem? hget)
    simp [bind, Except.bind, hne]

include hs

theorem State.Consistent.paid_listed :
    ∀ e ∈ s.transactionsPool.transactionsOrderedByFeeRate, s.heap.Paid V e.transaction :=
  fun e he => hs.paid ((hs.listed e).mp he)

theorem State.Consistent.length_listed :
    s.transactionsPool.transactionsOrderedByFeeRate.length = GoMap.size s.transactionsPool.allTransactions := by
  have hnodup : s.transactionsPool.transactionsOrderedByFeeRate.Nodup :=
    hs.sorted.imp fun hlt heq => hlt.ne (congrArg (rateKey S V) heq)
  have hperm : (s.transactionsPool.transactionsOrderedByFeeRate.map
      fun t => (⟨t.id, t⟩ : (_ : DomainTransactionID) × MempoolTransaction)).Perm
        s.transactionsPool.allTransactions.entries := by
    refine (perm_ext_iff_of_nodup ?_ s.transactionsPool.allTransactions.nodupKeys.nodup).mpr fun e => ?_
    · exact hnodup.map fun a b hab => by simpa using (Sigma.mk.inj hab).2
    rw [mem_entries_iff, mem_map]
    constructor
    · rintro ⟨t, ht, rfl⟩
      exact (hs.listed t).mp ht
    intro he
    refine ⟨e.2, (hs.listed e.2).mpr ?_, ?_⟩
    · rw [hs.key he, he]
    · rw [hs.key he]
  simpa [GoMap.size] using hperm.length_eq

omit hs

/-! ## The two writes of the pool -/

include hs in
/-- A transaction that has its fee leaves without error, and the state stays consistent. -/
theorem State.Consistent.unregistered (ht : s.heap.Paid V t.transaction) :
    (s.transactionsPool.removeTransaction S s.heap t).1 = .ok () ∧ (s.unregistered S t).Consistent S V := by
  have hkey : ∀ {id x}, (s.unregistered S t).transactionsPool.allTransactions.lookup id = some x →
      id ≠ t.id ∧ s.transactionsPool.allTransactions.lookup id = some x := of_lookup_unregistered
  have hchained : ∀ {id l}, (s.unregistered S t).transactionsPool.chainedTransactionsByParentID.lookup
      id = some l → s.transactionsPool.chainedTransactionsByParentID.lookup id = some l :=
    fun hl => removeTransaction_chained S s.heap s.transactionsPool t hl
  -- The list loses the transaction that the pool has under this ID, if any.
  obtain ⟨slice, hremove, hmem, hsorted⟩ : ∃ slice,
      (removeOrdered S s.heap s.transactionsPool.transactionsOrderedByFeeRate t = .ok slice ∨
        removeOrdered S s.heap s.transactionsPool.transactionsOrderedByFeeRate t = .error (.transactionNotFound t.id) ∧
          s.transactionsPool.transactionsOrderedByFeeRate = slice) ∧
      (∀ x, x ∈ slice ↔ x ∈ s.transactionsPool.transactionsOrderedByFeeRate ∧ x.id ≠ t.id) ∧
      SortedBy (rateKey S V) slice := by
    by_cases hex : ∃ e ∈ s.transactionsPool.transactionsOrderedByFeeRate, e.id = t.id
    · obtain ⟨e, he, hid⟩ := hex
      refine ⟨_, .inl (removeOrdered_listed hs.sorted ht hs.paid_listed he hid), fun x => ?_, hs.sorted.eraseIdx _⟩
      rw [hs.sorted.mem_eraseIdx_place he]
      refine and_congr_right fun hx => not_congr ⟨fun h => h ▸ hid, fun h => ?_⟩
      have hx' := (hs.listed x).mp hx
      have he' := (hs.listed e).mp he
      rw [h, ← hid] at hx'
      exact Option.some.inj (hx'.symm.trans he')
    · have hnot : ∀ e ∈ s.transactionsPool.transactionsOrderedByFeeRate, e.id ≠ t.id :=
        fun e he hid => hex ⟨e, he, hid⟩
      exact ⟨_, .inr ⟨removeOrdered_unlisted ht hs.paid_listed hnot, rfl⟩,
        fun x => ⟨fun hx => ⟨hx, hnot x hx⟩, And.left⟩, hs.sorted⟩
  obtain ⟨hok, hslice, hforgets, hhigh⟩ : (s.transactionsPool.removeTransaction S s.heap t).1 = .ok () ∧
      (s.unregistered S t).transactionsPool.transactionsOrderedByFeeRate = slice ∧
      (s.unregistered S t).transactionsPool.chainedTransactionsByParentID =
        s.transactionsPool.chainedTransactionsByParentID.erase t.id ∧
      (s.unregistered S t).transactionsPool.highPriorityTransactions =
        s.transactionsPool.highPriorityTransactions.erase t.id := by
    rcases hremove with hremove | ⟨hremove, rfl⟩ <;>
      simp only [State.unregistered, TransactionsPool.removeTransaction, hremove, and_self]
  refine ⟨hok, ?_⟩
  constructor
  case key => exact fun hx => hs.key (hkey hx).2
  case listed =>
    intro x
    rw [hslice, hmem, hs.listed, lookup_unregistered]
    by_cases hid : x.id = t.id <;> simp [hid]
  case sorted => rw [hslice]; exact hsorted
  case paid => exact fun hx => hs.paid (hkey hx).2
  case chained =>
    intro id l x hl hx
    rw [lookup_unregistered, if_neg]
    · exact hs.chained (hchained hl) hx
    rintro rfl
    rw [hforgets, lookup_delete, if_pos rfl] at hl
    cases hl
  case highPriority =>
    intro id x hx
    rw [hhigh, lookup_delete] at hx
    by_cases hid : id = t.id
    · simp [hid] at hx
    rw [if_neg hid] at hx
    exact hs.highPriority hx
  case orphans => exact hs.orphans
  case orphanObjects => exact hs.orphanObjects
  case apart =>
    intro id o ho
    rw [lookup_unregistered]
    by_cases hid : id = t.id
    · rw [if_pos hid]
    rw [if_neg hid]
    exact hs.apart ho

def State.entered (S : Setup) (V : TransactionFacts) (s : State) (t : MempoolTransaction) : State :=
  let slice := s.transactionsPool.transactionsOrderedByFeeRate
  let i := place (rateKey S V) slice (rateKey S V t)
  let s₁ := s.registered t
  { s₁ with transactionsPool :=
    { s₁.transactionsPool with
      transactionsOrderedByFeeRate := slice.take i ++ t :: slice.drop i
      highPriorityTransactions :=
        if t.isHighPriority then s.transactionsPool.highPriorityTransactions.insert t.id t
        else s.transactionsPool.highPriorityTransactions } }

include hs

theorem exec_addMempoolTransaction (ht : s.heap.Paid V t.transaction) {w : World} (hw : w.state = s) :
    exec (addMempoolTransaction S t) w =
      (.ok (), { w with state := s.entered S V t, indexWrites := ⟨t, s⟩ :: w.indexWrites }) := by
  obtain ⟨i, rfl, hpush⟩ := pushOrdered_eq (S := S) ht hs.paid_listed
  subst hw
  unfold addMempoolTransaction
  by_cases hp : t.isHighPriority <;>
    simp [exec_bind, writeIndex, getState, modifyState, ofExcept, hpush, hp, State.entered,
      State.registered, TransactionsPool.register]

/-- Transactions of the pool of which the transaction spends an output. -/
def State.ParentsOf (s : State) (tx : DomainTransaction) (parents : GoMap DomainTransactionID MempoolTransaction) :
    Prop :=
  ∀ e ∈ parents.entries, (s.transactionsPool.allTransactions.lookup e.2.id).isSome ∧
    ∃ o ∈ tx.outpoints, o.transactionID = e.2.id

/-- A new transaction that has its fee and its parents enters a consistent state. -/
theorem State.Consistent.entered (ht : s.heap.Paid V t.transaction)
    (hnew : s.transactionsPool.allTransactions.lookup t.id = none)
    (horphan : s.orphansPool.allOrphans.lookup t.id = none)
    (hparents : s.ParentsOf t.transaction.content (s.heap.parentTransactionsInPool t.address)) :
    (s.entered S V t).Consistent S V := by
  have hall : ∀ id, (s.entered S V t).transactionsPool.allTransactions.lookup id =
      if id = t.id then some t else s.transactionsPool.allTransactions.lookup id :=
    fun id => lookup_set _ _ _ _
  have hold : ∀ e ∈ s.transactionsPool.transactionsOrderedByFeeRate, e.id ≠ t.id := by
    intro e he hid
    have he' := (hs.listed e).mp he
    rw [hid, hnew] at he'
    cases he'
  constructor
  case key =>
    intro id x hx
    obtain ⟨rfl, rfl⟩ | hx := of_lookup_registered hx
    · rfl
    · exact hs.key hx
  case listed =>
    intro x
    rw [hall]
    unfold State.entered
    rw [mem_insert_place]
    by_cases hid : x.id = t.id
    · rw [if_pos hid, Option.some.injEq]
      exact ⟨fun h => h.elim Eq.symm fun h => absurd hid (hold x h), fun h => .inl h.symm⟩
    rw [if_neg hid, ← hs.listed]
    exact ⟨fun h => h.resolve_left fun heq => hid (heq ▸ rfl), .inr⟩
  case sorted =>
    exact hs.sorted.insert_place fun e he heq => hold e he (congrArg (fun k => (ofLex k).2) heq)
  case paid =>
    intro id x hx
    obtain ⟨-, rfl⟩ | hx := of_lookup_registered hx
    · exact ht
    · exact hs.paid hx
  case chained =>
    intro id l x hl hx
    have hkept : (s.transactionsPool.allTransactions.lookup id).isSome →
        ((s.entered S V t).transactionsPool.allTransactions.lookup id).isSome := fun h => by
      rw [hall]
      split_ifs
      · rfl
      · exact h
    obtain ⟨rfl, e, he, hid⟩ | ⟨l', hl', hx'⟩ := mem_register_chained _ _ _ hl hx
    · exact ⟨ht, hkept (hid ▸ (hparents e he).1), hid ▸ (hparents e he).2⟩
    · exact ⟨(hs.chained hl' hx').1, hkept (hs.chained hl' hx').2.1, (hs.chained hl' hx').2.2⟩
  case highPriority =>
    intro id x hx
    change (if t.isHighPriority then s.transactionsPool.highPriorityTransactions.insert t.id t
      else s.transactionsPool.highPriorityTransactions).lookup id = some x at hx
    split at hx
    · obtain ⟨-, rfl⟩ | hx := of_lookup_set hx
      · exact ht.toHolds
      · exact hs.highPriority hx
    · exact hs.highPriority hx
  case orphans => exact hs.orphans
  case orphanObjects => exact hs.orphanObjects
  case apart =>
    intro id o ho
    rw [hall]
    by_cases hid : id = t.id
    · have ho' : s.orphansPool.allOrphans.lookup id = some o := ho
      rw [hid, horphan] at ho'
      cases ho'
    · rw [if_neg hid]
      exact hs.apart ho

end Kaspad.Mempool
