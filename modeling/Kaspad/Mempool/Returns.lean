import Kaspad.Mempool.Insertion
import Kaspad.Mempool.SpentIndex

/-! # When the operations return

A transaction that reaches the input filling with an outpoint that names a pool transaction and an
output which that transaction does not have makes `ValidateAndInsertTransaction` panic. Otherwise the
call returns a result or an error, in every state that a run leads to in which transactions pay fees
and no orphan is submitted again while it is an orphan.
-/

namespace Kaspad.Mempool
open Lib Lib.Prog List GoMap Function

variable {S : Setup} {V : TransactionFacts}

/-! ## Filling in the inputs -/

/-- The inputs name outputs that their parents in the pool have. -/
def State.IndicesInRange (s : State) (tx : DomainTransaction) : Prop :=
  ∀ o ∈ tx.outpoints, ∀ parent, s.transactionsPool.allTransactions.lookup o.transactionID = some parent →
    o.index < parent.transaction.content.outputs.length

variable {s : State} {o : DomainOutpoint} {parents : GoMap DomainTransactionID MempoolTransaction}
  {inputs : List DomainTransactionInput} {α : Type}

theorem State.Consistent.lookup_parents (hs : s.Consistent S V) (tx : DomainTransaction) (ho : o ∈ tx.outpoints) :
    (s.transactionsPool.getParentTransactionsInPool tx).lookup o.transactionID =
      s.transactionsPool.allTransactions.lookup o.transactionID := by
  rw [lookup_getParentTransactionsInPool _ hs.key, if_pos (mem_map_of_mem ho)]

theorem fillInputs_ok (h : ∀ o ∈ inputs.map (·.previousOutpoint), ∀ parent,
      parents.lookup o.transactionID = some parent → o.index < parent.transaction.content.outputs.length) (i : ℕ)
    (utxoEntry : ℕ → Option UTXOEntry) : ∃ filled, fillInputs parents i inputs utxoEntry = .ok filled := by
  induction inputs generalizing i utxoEntry with
  | nil => exact ⟨utxoEntry, rfl⟩
  | cons input inputs ih =>
    have hrest := ih fun o ho => h o (by simp_all)
    unfold fillInputs
    cases hp : parents.lookup input.previousOutpoint.transactionID with
    | none => exact hrest _ _
    | some parent =>
      have hlt := h input.previousOutpoint (by simp) parent hp
      simp only [List.getElem?_eq_getElem hlt]
      exact hrest _ _

theorem fillInputs_panics (ho : o ∈ inputs.map (·.previousOutpoint)) {parent : MempoolTransaction}
    (hp : parents.lookup o.transactionID = some parent)
    (hle : parent.transaction.content.outputs.length ≤ o.index) (i : ℕ) (utxoEntry : ℕ → Option UTXOEntry) :
    ∃ index length, fillInputs parents i inputs utxoEntry = .error (.indexOutOfRange index length) := by
  induction inputs generalizing i utxoEntry with
  | nil => simp at ho
  | cons input inputs ih =>
    unfold fillInputs
    rcases mem_cons.mp ho with rfl | ho
    · simp only [hp, List.getElem?_eq_none hle]
      exact ⟨_, _, rfl⟩
    cases parents.lookup input.previousOutpoint.transactionID with
    | none => exact ih ho _ _
    | some parent' =>
      dsimp only
      cases parent'.transaction.content.outputs[input.previousOutpoint.index]? with
      | none => exact ⟨_, _, rfl⟩
      | some output => exact ih ho _ _

theorem fits_fillInputs {tx : DomainTransaction} {p : Populated} {i : ℕ} {filled : ℕ → Option UTXOEntry}
    (hparents : ∀ id parent, parents.lookup id = some parent → parent.id = id ∧ V.Pays parent.transaction.content)
    (hfits : V.Fits tx p) (hdrop : tx.inputs.drop i = inputs)
    (h : fillInputs parents i inputs p.utxoEntry = .ok filled) : V.Fits tx { p with utxoEntry := filled } := by
  induction inputs generalizing i p with
  | nil =>
    cases h
    exact hfits
  | cons input inputs ih =>
    have hinput : tx.inputs[i]? = some input := by rw [← head?_drop, hdrop]; rfl
    have hrest : tx.inputs.drop (i + 1) = inputs := by rw [← drop_drop, hdrop]; rfl
    unfold fillInputs at h
    cases hlookup : parents.lookup input.previousOutpoint.transactionID with
    | none =>
      rw [hlookup] at h
      exact ih hfits hrest h
    | some parent =>
      obtain ⟨hid, hpays⟩ := hparents _ parent hlookup
      cases houtput : parent.transaction.content.outputs[input.previousOutpoint.index]? with
      | none => simp [hlookup, houtput] at h
      | some output =>
        simp only [hlookup, houtput] at h
        refine ih (p := { p with utxoEntry := update p.utxoEntry i (some (unacceptedEntry output)) }) (hfits.update fun input' hinput' => ?_) hrest h
        have hvalue := hpays input.previousOutpoint.index
        rw [houtput, show parent.transaction.content.outpoint input.previousOutpoint.index = input.previousOutpoint from
          congrArg (DomainOutpoint.mk · _) hid] at hvalue
        rw [hinput, Option.some.injEq] at hinput'
        exact hinput' ▸ hvalue

variable (hc : ConsensusAgrees V S)
include hc in
theorem total_fillInputsAndGetMissingParents {tx : TransactionPointer} {P : State → Prop}
    (hP : HeapStable V P) (hs : s.Consistent S V) (hPs : P s) (hheld : s.heap.Holds V tx)
    (hrange : s.IndicesInRange tx.content) (hcons : ∀ s, P s → s.Consistent S V) :
    Total (fun w => w.state = s) (fun _ => fillInputsAndGetMissingParents S tx)
      (fun r w => P w.state ∧ w.state.ParentsOf tx.content r.1 ∧ (r.2.length = 0 → w.state.heap.Paid V tx ∧
          Filled tx.content (w.state.heap.populated tx.address)) ∧
        (r.2.length > 0 → tx.content.outpoints.Nodup)) (ReturnsError S V) := by
  refine total_getState_bind (P := (· = s)) ?_
  rintro s rfl
  -- Filling in entries does not touch the pool, so the parents stay what they are.
  let P' : State → Prop := fun s' => P s' ∧
    s'.ParentsOf tx.content (s.transactionsPool.getParentTransactionsInPool tx.content)
  have hP' : HeapStable V P' := fun s' h hs' hg => ⟨hP s' h hs'.1 hg, hs'.2⟩
  refine total_populatedOf_bind (P := (· = s)) ?_
  rintro s rfl
  have hparents := hs.parentsOf tx.content
  have hindices : ∀ o ∈ tx.content.inputs.map (·.previousOutpoint), ∀ parent,
      (s.transactionsPool.getParentTransactionsInPool tx.content).lookup o.transactionID =
        some parent → o.index < parent.transaction.content.outputs.length := fun o ho parent hp =>
    hrange o ho parent ((hs.lookup_parents tx.content ho).symm.trans hp)
  obtain ⟨filled, hfilled⟩ := fillInputs_ok hindices 0 (s.heap.populated tx.address).utxoEntry
  have hpays : ∀ id parent, (s.transactionsPool.getParentTransactionsInPool tx.content).lookup id = some parent →
      parent.id = id ∧ V.Pays parent.transaction.content := fun id parent hparent => by
    rw [lookup_getParentTransactionsInPool _ hs.key] at hparent
    split_ifs at hparent
    exact ⟨hs.key hparent, (hs.paid hparent).admitted.pays⟩
  rw [hfilled]
  have hgrows := hheld.grows_update (p := { (s.heap.populated tx.address) with
    utxoEntry := filled }) rfl (.inl rfl) 
    (fits_fillInputs hpays hheld.fits rfl hfilled)
  refine (total_ofChecked (P := (· = s)) (fun _ h => h ▸ hs) (fun f hf => by cases hf)).bind fun a w hw => ?_
  obtain rfl : filled = a := Except.ok.inj hw.2
  refine ((total_modifyState (P := (· = s)) (R := fun s => P' s ∧ s.heap.Holds V tx) ?_).bind
    fun _ => (total_validateWithConsensus hc hP' tx).bind fun e => ?_) w hw.1
  · rintro s rfl
    exact ⟨hP' _ _ ⟨hPs, hparents⟩ hgrows, hheld.grow hgrows⟩
  rcases e with - | (outpoints | - | - | -)
  · exact total_pure fun w hw => ⟨hw.1.1, hw.1.2, fun _ => hw.2.2.1 rfl, by simp⟩
  · refine total_pure fun w hw => ⟨hw.1.1, hw.1.2, fun h => ?_, fun _ => (hw.2.2.2 _ rfl).2⟩
    exact absurd (length_eq_zero_iff.mp h) (hw.2.2.2 _ rfl).1
  all_goals exact total_throw fun w hw => ⟨⟨_, rfl⟩, hcons _ hw.1.1⟩

/-! ## Inserting a transaction -/

/-- Rejected before the inputs: in the pool already, not standard, or a double spend by the index. -/
def State.Refuses (S : Setup) (V : TransactionFacts) (s : State) (tx : DomainTransaction) (p : Populated) : Prop :=
  ∃ e, validateTransactionPreUTXOEntry S s tx { p with mass := V.mass tx.id } = .error e

def Heap.withNew (V : TransactionFacts) (h : Heap) (tx : DomainTransaction) (p : Populated) : Heap :=
  { h with
    content := Function.update h.content h.nextAddress tx
    populated := Function.update h.populated h.nextAddress { p with mass := V.mass tx.id }
    nextAddress := h.nextAddress + 1 }

theorem Heap.grows_withNew (h : Heap) (tx : DomainTransaction) (p : Populated) : h.Grows V (h.withNew V tx p) where
  next := Nat.le_succ _
  content _ ha := update_of_ne (Nat.ne_of_lt ha) _ _
  mass _ ha := congrArg Populated.mass (update_of_ne (Nat.ne_of_lt ha) _ _)
  fee _ ha := .inl (congrArg Populated.fee (update_of_ne (Nat.ne_of_lt ha) _ _))
  fits _ ha h := h.of_le fun j entry hentry => by
    simpa [Heap.withNew, Nat.ne_of_lt ha] using hentry

theorem Heap.holds_withNew (h : Heap) {tx : DomainTransaction} (hadmits : V.Admits tx)
    {p : Populated} (hfits : V.Fits tx p) : (h.withNew V tx p).Holds V ⟨h.nextAddress, tx⟩ where
  allocated := Nat.lt_succ_self _
  content := by simp [Heap.withNew]
  mass := by simp [Heap.withNew]
  fits := hfits.of_le fun j entry hentry => by simpa [Heap.withNew] using hentry
  admitted := hadmits

include hc

theorem exec_validateAndInsertTransaction {tx : DomainTransaction} (htx : V.submitted tx) {p : Populated}
    (hmass : p.mass = 0 ∨ p.mass = V.mass tx.id) (isHighPriority allowOrphan : Bool) (w : World) (n : ℕ) :
    exec (validateAndInsertTransaction S n tx p isHighPriority allowOrphan) w =
      exec (insertTransaction S n ⟨w.state.heap.nextAddress, tx⟩ isHighPriority allowOrphan) { w with
          state := { w.state with heap := w.state.heap.withNew V tx p }, queries := w.queries + 1 } := by
  unfold validateAndInsertTransaction
  obtain ⟨w₁, hw₁, hnew⟩ : ∃ w₁, w₁ = { w with
      state.heap.content := Function.update w.state.heap.content w.state.heap.nextAddress tx
      state.heap.populated := Function.update w.state.heap.populated w.state.heap.nextAddress p
      state.heap.nextAddress := w.state.heap.nextAddress + 1 } ∧
      exec (newTransaction tx p) w = (.ok ⟨w.state.heap.nextAddress, tx⟩, w₁) := ⟨_, rfl, rfl⟩
  rw [exec_bind, hnew]
  dsimp only
  rw [exec_bind]
  have hpopulate : exec (populateMass S ⟨w.state.heap.nextAddress, tx⟩) w₁ = (.ok (), { w with
      state := { w.state with heap := w.state.heap.withNew V tx p }
      queries := w.queries + 1 }) := by
    subst hw₁
    unfold populateMass
    by_cases hzero : p.mass = 0
    · simp [exec_bind, populatedOf, getState, query, hzero, setPopulated, modifyState, Heap.withNew,
        hc.mass _ _ htx]
    have hp : p = { p with mass := V.mass tx.id } := by
      rw [← hmass.resolve_left hzero]
    simp [exec_bind, populatedOf, getState, query, hzero, Heap.withNew, ← hp]
  rw [hpopulate]

theorem total_insertTransaction {tx : TransactionPointer} (isHighPriority allowOrphan : Bool)
    (hs : s.Consistent S V) (hheld : s.heap.Holds V tx)
    (horphan : s.orphansPool.allOrphans.lookup tx.content.id = none)
    (hcond : (∃ e, validateTransactionPreUTXOEntry S s tx.content
      (s.heap.populated tx.address) = .error e) ∨ s.IndicesInRange tx.content) :
    Settles S V (fun w => w.state = s) (fun n => insertTransaction S n tx isHighPriority allowOrphan) := by
  refine total_getState_bind (P := (· = s)) ?_
  rintro s rfl
  refine total_populatedOf_bind (P := (· = s)) ?_
  rintro s rfl
  refine (total_ofExcept (P := (· = s)) (fun _ h => h ▸ hs) _).bind fun a w hw => ?_
  obtain ⟨hw, hvalid⟩ := hw
  have hrange : s.IndicesInRange tx.content := by
    rcases hcond with ⟨e, he⟩ | hrange
    · rw [hvalid] at he
      cases he
    · exact hrange
  have hfresh : s.Fresh S V tx := ⟨hs, hheld, not_in_pool_of_valid hvalid, horphan⟩
  refine ((total_fillInputsAndGetMissingParents hc (heapStable_fresh tx) hs hfresh hheld hrange
    fun _ h => h.consistent).bind fun r => ?_) w hw
  obtain ⟨parents, missing⟩ := r
  by_cases hmissing : missing.length > 0
  · simp only [if_pos hmissing]
    cases allowOrphan with
    | false => exact total_throw fun w hw => ⟨⟨_, rfl⟩, hw.1.consistent⟩
    | true =>
      intro w hw
      exact ((total_maybeAddOrphan isHighPriority (hw.2.2.2 hmissing)).bind fun _ =>
        total_pure fun _ h => h) w hw.1
  simp only [if_neg hmissing]
  intro w hw
  obtain ⟨hfresh', hparents, hpaid, -⟩ := hw
  obtain ⟨hpaid, hfilled⟩ := hpaid (by omega)
  refine (total_populatedOf_bind (P := (· = w.state)) ?_) w rfl
  intro s' hs'
  subst hs'
  refine (total_ofChecked (P := (· = w.state)) (fun _ h => h ▸ hfresh'.consistent) fun f hf =>
    validateTransactionInContext_returns hfilled hf).bind fun _ =>
    ((total_addTransaction isHighPriority).pre fun w' hw' => ?_).bind fun t w' hw' =>
    ((total_processOrphans hc t.transaction.content (hw'.1 ▸ hheld.admitted.pays)).bind fun _ =>
      total_limitTransactionCount.bind fun _ => total_pure fun _ h => h) w' hw'.2
  rw [hw'.1]
  exact ⟨hfresh', hpaid, hparents⟩

omit hc
variable {w : World}

theorem insertTransaction_panics (tx : TransactionPointer) (isHighPriority allowOrphan : Bool)
    (hs : w.state.Consistent S V) (hvalid : ∀ e, validateTransactionPreUTXOEntry S w.state tx.content
      (w.state.heap.populated tx.address) ≠ .error e) (hrange : ¬ w.state.IndicesInRange tx.content) :
    ∃ index length, ∀ n, exec (insertTransaction S n tx isHighPriority allowOrphan) w =
      (.error (.indexOutOfRange index length), w) := by
  unfold State.IndicesInRange at hrange
  push Not at hrange
  obtain ⟨o, ho, parent, hparent, hle⟩ := hrange
  rw [← hs.lookup_parents tx.content ho] at hparent
  obtain ⟨index, length, hfill⟩ := fillInputs_panics ho hparent hle 0 (w.state.heap.populated tx.address).utxoEntry
  refine ⟨index, length, fun n => ?_⟩
  cases hv : validateTransactionPreUTXOEntry S w.state tx.content (w.state.heap.populated tx.address) with
  | error e => exact absurd hv (hvalid e)
  | ok a =>
    unfold insertTransaction fillInputsAndGetMissingParents
    simp [exec_bind, getState, populatedOf, hv, ofExcept, hfill, ofChecked]

/-! ## The other operations -/

def ErrorOrPanic (S : Setup) (V : TransactionFacts) : Failure → World → Prop
  | .error _, w => w.state.Consistent S V
  | .indexOutOfRange _ _, _ => True
  | .nilDereference, _ => True
  | .running, _ => False

theorem errorOrPanic_of_returnsError {e : Failure} (h : ReturnsError S V e w) : ErrorOrPanic S V e w := by
  obtain ⟨⟨err, rfl⟩, h⟩ := h
  exact h

theorem total_removeTransaction_any (id : DomainTransactionID) (removeRedeemers : Bool) :
    Settles S V (fun w => w.state.Consistent S V) (fun n => removeTransaction S n id removeRedeemers) :=
  fun w hw => ((total_removeTransaction hw id removeRedeemers).post (fun _ _ h => h.1.consistent)) w rfl

theorem total_removeOrphan_any (id : DomainTransactionID) (removeRedeemers : Bool) :
    Settles S V (fun w => w.state.Consistent S V) (fun _ => onOrphans (OrphansPool.removeOrphan id removeRedeemers)) := by
  intro w hw
  refine ((total_onOrphans (OrphansPool.exec_removeOrphan id removeRedeemers w.state.orphansPool
    hw.orphans)).post ?_) w rfl
  rintro - w' ⟨op, hw', hop, -⟩
  rw [hw']
  exact hw.orphans_within hop.within hop.indexed

include hc in
theorem total_handleTransactions {transactions : List DomainTransaction} (hpays : ∀ tx ∈ transactions, V.Pays tx) :
    Settles S V (fun w => w.state.Consistent S V) (fun n => handleTransactions S n transactions) := by
  induction transactions with
  | nil => exact total_pure fun _ h => h
  | cons tx transactions ih =>
    refine (total_removeTransaction_any tx.id false).bind fun _ => Total.bind ?_ fun _ =>
      (total_removeOrphan_any tx.id false).bind fun _ =>
      (total_processOrphans hc tx (hpays tx (by simp))).bind fun _ =>
      (ih fun tx htx => hpays tx (by simp [htx])).bind fun _ => total_pure fun _ h => h
    refine total_forM fun input _ => total_getState_bind fun s hs => ?_
    cases s.mempoolUTXOSet.transactionByPreviousOutpoint.lookup input.previousOutpoint with
    | none => exact total_pure fun w hw => hw ▸ hs
    | some redeemer =>
      exact (total_removeTransaction_any redeemer.id true).pre fun w hw => hw ▸ hs

theorem total_expireOrphanTransactions :
    Settles S V (fun w => w.state.Consistent S V) (fun _ => expireOrphanTransactions S) := by
  refine (total_getVirtualDAAScore fun _ h => h).bind fun score => total_getState_bind fun s hs => ?_
  by_cases hscan : sub64 score s.orphansPool.lastExpireScan < S.config.orphanExpireScanIntervalDAAScore
  · simp only [hscan, if_true]
    exact total_pure fun w hw => hw ▸ hs
  simp only [hscan, if_false]
  refine (total_query (· = s) _).bind fun order => Total.bind
    (Q := fun _ w => w.state.Consistent S V) ?_ fun _ => total_modifyState
      (P := State.Consistent S V) (R := State.Consistent S V) fun s hs => ?_
  · refine (total_forM (P := fun w : World => w.state.Consistent S V) fun orphan _ =>
      total_getState_bind fun s hs => ?_).pre fun w hw => hw.1 ▸ hs
    split
    · exact (total_removeOrphan_any orphan.id false).pre fun w hw => hw ▸ hs
    · exact total_pure fun w hw => hw ▸ hs
  · exact { hs with
      orphans := ⟨hs.orphans.key, hs.orphans.nodup, hs.orphans.listed, hs.orphans.owned⟩ }

theorem total_expireOldTransactions :
    Settles S V (fun w => w.state.Consistent S V) (fun n => expireOldTransactions S n) := by
  refine (total_getVirtualDAAScore fun _ h => h).bind fun score => total_getState_bind fun s hs =>
    (total_query (· = s) _).bind fun passed => ?_
  by_cases hscan : sub64 score s.transactionsPool.lastExpireScanDAAScore
      < S.config.transactionExpireScanIntervalDAAScore ∨ !passed
  · simp only [hscan, if_true]
    exact total_pure fun w hw => hw.1 ▸ hs
  simp only [hscan, if_false]
  refine Total.pre (P := fun w => w.state = s) ?_ (fun _ h => h.1)
  refine (total_query (· = s) _).bind fun order => Total.bind
    (Q := fun _ w => w.state.Consistent S V) ?_ fun _ => ?_
  case refine_2 =>
    refine total_modifyState (P := State.Consistent S V) (R := State.Consistent S V) fun s hs => ?_
    exact ⟨hs.key, hs.listed, hs.sorted, hs.paid, hs.chained, hs.highPriority, hs.orphans,
      hs.orphanObjects, hs.apart⟩
  refine (total_forM (P := fun w : World => w.state.Consistent S V) fun t _ =>
    total_getState_bind fun s hs => ?_).pre fun w hw => hw.1 ▸ hs
  by_cases hexpired : (s.transactionsPool.allTransactions.lookup t.id).isSome &&
      !t.isHighPriority && decide (sub64 score t.addedAtDAAScore > S.config.transactionExpireIntervalDAAScore)
  · simp only [hexpired, if_true]
    exact (total_removeTransaction_any t.id true).pre fun w hw => hw ▸ hs
  simp only [hexpired]
  exact total_pure fun w hw => hw ▸ hs

/-! ## Revalidation -/

def State.ConsistentWith (S : Setup) (V : TransactionFacts) (held : TransactionPointer → Prop) (s : State) : Prop :=
  s.Consistent S V ∧ ∀ tx, held tx → s.heap.Holds V tx

theorem heapStable_consistentWith (held : TransactionPointer → Prop) : HeapStable V (State.ConsistentWith S V held) :=
  fun _ _ hs hg => ⟨hs.1.grow hg, fun tx htx => (hs.2 tx htx).grow hg⟩

include hc in
theorem total_revalidateTransaction {held : TransactionPointer → Prop} {t : MempoolTransaction}
    (ht : held t.transaction) :
    Total (fun w => w.state.ConsistentWith S V held) (fun n => revalidateTransaction S n t)
      (fun _ w => w.state.ConsistentWith S V held) (ErrorOrPanic S V) := by
  refine total_populatedOf_bind fun s hs => Total.bind
    (Q := fun _ w => w.state.ConsistentWith S V held) ?_ fun _ => ?_
  · refine total_modifyState (P := (· = s)) ?_
    rintro s rfl
    exact heapStable_consistentWith held _ _ hs ((hs.2 _ ht).grows_update rfl (.inl rfl)
      ((hs.2 _ ht).fits.of_le fun _ _ h => by cases h))
  intro w hw
  by_cases hrange : w.state.IndicesInRange t.transaction.content
  · refine (((total_fillInputsAndGetMissingParents hc (heapStable_consistentWith held) hw.1 hw
      (hw.2 _ ht) hrange fun _ h => h.1).weaken (fun _ h => h) (fun _ _ h => h)
      fun _ _ h => errorOrPanic_of_returnsError h).bind fun r => ?_) w rfl
    obtain ⟨parents, missing⟩ := r
    by_cases hmissing : missing.length > 0
    · simp only [if_pos hmissing]
      refine Total.bind (Q := fun _ w => w.state.ConsistentWith S V held) (fun w hw => ?_)
        fun _ => total_pure fun _ h => h
      refine ((total_removeTransaction hw.1.1 t.id false).weaken (fun _ h => h) (fun _ w' hw' => ?_)
        fun _ _ h => errorOrPanic_of_returnsError h) w rfl
      exact ⟨hw'.1.consistent, fun tx htx => (hw.1.2 tx htx).grow hw'.1.heap⟩
    · simp only [if_neg hmissing]
      exact total_pure fun w hw => hw.1
  · -- The inputs of a pool transaction may be out of range as well; the process is gone then.
    unfold State.IndicesInRange at hrange
    push Not at hrange
    obtain ⟨o, ho, parent, hparent, hle⟩ := hrange
    rw [← hw.1.lookup_parents t.transaction.content ho] at hparent
    obtain ⟨index, length, hfill⟩ := fillInputs_panics ho hparent hle 0
      (w.state.heap.populated t.transaction.address).utxoEntry
    refine ⟨(.error (.indexOutOfRange index length), w), ⟨0, fun n _ => ?_⟩, trivial⟩
    unfold fillInputsAndGetMissingParents
    simp [exec_bind, getState, populatedOf, hfill, ofChecked]

def unvisited (ids : List DomainTransactionID) (dag : TxDAG) : ℕ :=
  ids.countP fun id => (dag.lookup id).any fun node => !node.visited

theorem countP_lt {l : List α} {p q : α → Bool} (hle : ∀ x ∈ l, p x → q x) {a : α} (ha : a ∈ l)
    (hp : p a = false) (hq : q a) : l.countP p < l.countP q := by
  induction l with
  | nil => cases ha
  | cons x l ih =>
    have hl := countP_mono_left (l := l) fun y hy => hle y (by simp [hy])
    rw [countP_cons, countP_cons]
    rcases mem_cons.mp ha with rfl | ha
    · simp [hp, hq]
      omega
    have hlt := ih (fun y hy => hle y (by simp [hy])) ha
    have hx := hle x (by simp)
    by_cases hpx : p x
    · simp [hpx, hx hpx]
      omega
    simp only [hpx, Bool.false_eq_true, if_false]
    omega

theorem visitChildren_lookup (children : List DomainTransactionID) (dag : TxDAG)
    (queue : List DomainTransactionID) (id : DomainTransactionID) :
    ((visitChildren children (dag, queue)).1.lookup id).map (fun node => (node.visited, node.tx)) =
      (dag.lookup id).map fun node => (node.visited, node.tx) := by
  induction children generalizing dag queue with
  | nil => rfl
  | cons child children ih =>
    unfold visitChildren
    cases hchild : dag.lookup child with
    | none => exact ih dag queue
    | some node =>
      rw [ih, lookup_set]
      by_cases hid : id = child
      · rw [if_pos hid, hid, hchild]
        rfl
      · rw [if_neg hid]

def TxDAG.Knows (ids : List DomainTransactionID) (held : TransactionPointer → Prop) (dag : TxDAG) :
    Prop :=
  ∀ id node, dag.lookup id = some node → id ∈ ids ∧ ∀ t, node.tx = some t → held t.transaction

section Visit

variable {ids : List DomainTransactionID} {held : TransactionPointer → Prop} {dag : TxDAG}
  {id : DomainTransactionID} {node : TxNode} (children queue : List DomainTransactionID)

theorem knows_visit (hdag : dag.Knows ids held) (hid : dag.lookup id = some node) :
    (visitChildren children (dag.insert id { node with visited := true }, queue)).1.Knows ids held := by
  intro id' node' hid'
  have hlookup := visitChildren_lookup children (dag.insert id { node with visited := true }) queue id'
  rw [hid', lookup_set] at hlookup
  by_cases heq : id' = id
  · rw [if_pos heq] at hlookup
    obtain ⟨-, htx⟩ := Prod.mk.inj (Option.some.inj hlookup)
    exact ⟨heq ▸ (hdag id node hid).1, fun t ht => (hdag id node hid).2 t (htx ▸ ht)⟩
  rw [if_neg heq] at hlookup
  obtain ⟨node₀, hnode₀, heq₀⟩ := Option.map_eq_some_iff.mp hlookup.symm
  obtain ⟨-, htx⟩ := Prod.mk.inj heq₀
  exact ⟨(hdag id' node₀ hnode₀).1, fun t ht => (hdag id' node₀ hnode₀).2 t (htx.trans ht)⟩

theorem unvisited_visit (hmem : id ∈ ids) (hid : dag.lookup id = some node) (hvisited : node.visited = false) :
    unvisited ids (visitChildren children (dag.insert id { node with visited := true }, queue)).1 <
      unvisited ids dag := by
  have hany : ∀ (m : TxDAG) id', ((m.lookup id').any fun node => !node.visited) =
      ((m.lookup id').map fun node => (node.visited, node.tx)).any fun p => !p.1 := by
    intro m id'
    cases m.lookup id' <;> rfl
  refine countP_lt (fun id' _ h => ?_) hmem ?_ ?_
  · rw [hany, visitChildren_lookup, lookup_set] at h
    by_cases heq : id' = id
    · simp [heq] at h
    · rwa [if_neg heq, ← hany] at h
  · rw [hany, visitChildren_lookup, lookup_set]
    simp
  · simp [hid, hvisited]

end Visit

include hc in
theorem total_revalidateLoop (ids : List DomainTransactionID) (held : TransactionPointer → Prop) (u : ℕ) :
    ∀ (f : ℕ → ℕ) (queue : List DomainTransactionID) (dag : TxDAG), (∀ n, n ≤ f n) →
      dag.Knows ids held → unvisited ids dag ≤ u →
      Total (fun w => w.state.ConsistentWith S V held) (fun n => revalidateLoop S (f n) n dag queue)
        (fun _ w => w.state.ConsistentWith S V held) (ErrorOrPanic S V) := by
  -- Outside on the unvisited nodes, inside on the queue.
  induction u using Nat.strong_induction_on with
  | _ u ihu =>
    intro f queue
    induction queue generalizing f with
    | nil =>
      intro dag _ _ _
      have hnil : (fun n => revalidateLoop S (f n) n dag []) = fun _ => pure [] := by
        funext n
        cases n <;> rfl
      rw [hnil]
      exact total_pure fun _ h => h
    | cons id queue ihq =>
      intro dag hf hdag hu
      refine Total.of_succ ?_
      unfold revalidateLoop
      have hf' : ∀ n, n ≤ f (n + 1) := fun n => (Nat.le_succ n).trans (hf _)
      cases hid : dag.lookup id with
      | none => exact total_throw fun _ _ => trivial
      | some node =>
        by_cases hvisited : node.visited
        · simp only [hvisited, if_true]
          exact ihq (fun n => f (n + 1)) dag hf' hdag hu
        simp only [hvisited]
        cases htx : node.tx with
        | none => exact total_throw fun _ _ => trivial
        | some t =>
          obtain ⟨hmem, hheld⟩ := hdag id node hid
          refine ((total_revalidateTransaction hc (hheld t htx)).comp hf').bind fun isValid => ?_
          refine (total_query (State.ConsistentWith S V held) _).bind fun order => ?_
          refine Total.bind (ihu (unvisited ids _) (hu.trans_lt' ?_) (fun n => f (n + 1)) _ _ hf'
            ?_ le_rfl |>.pre (fun _ h => h.1))
            fun more => total_pure fun _ h => h
          · rw [← htx]
            exact unvisited_visit _ _ hmem hid (by simpa using hvisited)
          rw [← htx]
          exact knows_visit _ _ hdag hid

section BuildDAG

variable {highPriority : GoMap DomainTransactionID MempoolTransaction} {dag : TxDAG}

def TxDAG.From (highPriority : GoMap DomainTransactionID MempoolTransaction) (dag : TxDAG) : Prop :=
  ∀ id node, dag.lookup id = some node → ∀ t, node.tx = some t → ∃ id, highPriority.lookup id = some t

theorem TxDAG.From.insert (hdag : dag.From highPriority) {id : DomainTransactionID} {node : TxNode}
    (hnode : ∀ t, node.tx = some t → ∃ id, highPriority.lookup id = some t) :
    TxDAG.From highPriority (dag.insert id node) := by
  intro id' node' hid'
  obtain ⟨-, rfl⟩ | hid' := of_lookup_set hid'
  · exact hnode
  · exact hdag id' node' hid'

theorem from_maybeAddNode (hdag : dag.From highPriority) (id : DomainTransactionID) :
    (maybeAddNode highPriority dag id).1.From highPriority ∧
      ∀ t, (maybeAddNode highPriority dag id).2.tx = some t → ∃ id, highPriority.lookup id = some t := by
  unfold maybeAddNode
  cases hid : dag.lookup id with
  | some node => exact ⟨hdag, hdag id node hid⟩
  | none => exact ⟨hdag.insert fun t ht => ⟨id, ht⟩, fun t ht => ⟨id, ht⟩⟩

theorem from_linkParents (id : DomainTransactionID) (inputs : List DomainTransactionInput)
    (parents : List DomainTransactionID) (hdag : dag.From highPriority) :
    (linkParents highPriority id inputs dag parents).1.From highPriority := by
  induction inputs generalizing dag parents with
  | nil => exact hdag
  | cons input inputs ih =>
    unfold linkParents
    dsimp only
    split
    · exact ih parents hdag
    obtain ⟨hdag', hnode⟩ := from_maybeAddNode hdag input.previousOutpoint.transactionID
    exact ih _ (hdag'.insert hnode)

theorem from_buildTxDAG (transactions : List MempoolTransaction) (queue : List DomainTransactionID)
    (hdag : dag.From highPriority) : (buildTxDAG highPriority transactions (dag, queue)).1.From highPriority := by
  induction transactions generalizing dag queue with
  | nil => exact hdag
  | cons t transactions ih =>
    refine ih _ ?_
    obtain ⟨hdag', hnode⟩ := from_maybeAddNode (from_linkParents t.id t.transaction.content.inputs []
      (from_maybeAddNode hdag t.id).1) t.id
    exact hdag'.insert hnode

end BuildDAG

include hc in
theorem total_revalidateHighPriorityTransactions :
    Total (fun w => w.state.Consistent S V) (fun n => revalidateHighPriorityTransactions S n)
      (fun _ w => w.state.Consistent S V) (ErrorOrPanic S V) := by
  refine total_getState_bind fun s hs => (total_query (· = s) _).bind fun order => ?_
  have hdag : (buildTxDAG s.transactionsPool.highPriorityTransactions ((GoMap.rangeBy order
      s.transactionsPool.highPriorityTransactions).map Sigma.snd) (∅, [])).1.From
        s.transactionsPool.highPriorityTransactions :=
    from_buildTxDAG _ _ fun id node h => by simp at h
  generalize buildTxDAG s.transactionsPool.highPriorityTransactions ((GoMap.rangeBy order
      s.transactionsPool.highPriorityTransactions).map Sigma.snd) (∅, []) = start at hdag
  obtain ⟨dag, queue⟩ := start
  refine (total_revalidateLoop hc dag.keys (fun tx => ∃ id t,
    s.transactionsPool.highPriorityTransactions.lookup id = some t ∧ t.transaction = tx) _ id queue dag
    (fun _ => le_rfl) ?_ le_rfl).weaken ?_ (fun _ _ h => h.1) fun _ _ h => h
  · intro id node hid
    refine ⟨AList.lookup_isSome.mp (by rw [hid]; rfl), fun t ht => ?_⟩
    obtain ⟨id', hid'⟩ := hdag id node hid t ht
    exact ⟨id', t, hid', rfl⟩
  rintro w ⟨hw, -⟩
  rw [hw]
  refine ⟨hs, ?_⟩
  rintro tx ⟨id, t, ht, rfl⟩
  exact hs.highPriority ht

/-! ## Rounds

More rounds do not change what a call does, unless it was still running.
-/

theorem getRedeemersLoop_succ (tp : TransactionsPool) {n : ℕ} {stack redeemers r : List MempoolTransaction}
    (h : tp.getRedeemersLoop n stack redeemers = some r) : tp.getRedeemersLoop (n + 1) stack redeemers = some r := by
  induction n generalizing stack redeemers with
  | zero =>
    cases stack with
    | nil => exact h
    | cons t stack => cases h
  | succ n ih =>
    cases stack with
    | nil => exact h
    | cons t stack => exact ih h

section Rounds
variable (S : Setup)

theorem extends_removeTransaction (n : ℕ) (id : DomainTransactionID) (removeRedeemers : Bool) :
    Extends .running (removeTransaction S n id removeRedeemers) (removeTransaction S (n + 1) id removeRedeemers) := by
  refine (Extends.refl _ _).bind fun s => ?_
  split
  · exact .refl _ _
  split
  · exact .refl _ _
  rename_i t _
  cases hr : s.transactionsPool.getRedeemers n t with
  | none => exact extends_throw _ _
  | some redeemers =>
    have hr' : s.transactionsPool.getRedeemers (n + 1) t = some redeemers := getRedeemersLoop_succ _ hr
    simp only [hr']
    exact .refl _ _

theorem extends_limitOrphanPoolSize (n : ℕ) :
    Extends .running (limitOrphanPoolSize S n) (limitOrphanPoolSize S (n + 1)) := by
  induction n with
  | zero => exact extends_throw _ _
  | succ n ih =>
    refine (Extends.refl _ _).bind fun s => ?_
    dsimp only
    split
    · refine (Extends.refl _ _).bind fun order => ?_
      split
      · exact .refl _ _
      · exact (Extends.refl _ _).bind fun _ => ih
    · exact .refl _ _

theorem extends_limitTransactionCountLoop (rounds n currentIndex : ℕ) :
    Extends .running (limitTransactionCountLoop S rounds n currentIndex)
      (limitTransactionCountLoop S (rounds + 1) (n + 1) currentIndex) := by
  induction n generalizing currentIndex with
  | zero => exact extends_throw _ _
  | succ n ih =>
    refine (Extends.refl _ _).bind fun s => ?_
    dsimp only
    split
    · refine (Extends.refl _ _).bind fun r => ?_
      split
      · exact .refl _ _
      · refine (extends_removeTransaction S rounds _ true).bind fun _ => (Extends.refl _ _).bind fun s => ?_
        split
        · exact .refl _ _
        · exact ih _
    · exact .refl _ _

theorem extends_validateAndInsertTransaction (n : ℕ) (tx : DomainTransaction) (p : Populated) (isHighPriority allowOrphan : Bool) :
    Extends .running (validateAndInsertTransaction S n tx p isHighPriority allowOrphan)
      (validateAndInsertTransaction S (n + 1) tx p isHighPriority allowOrphan) := by
  refine (Extends.refl _ _).bind fun tx => (Extends.refl _ _).bind fun _ => (Extends.refl _ _).bind fun s =>
    (Extends.refl _ _).bind fun p => (Extends.refl _ _).bind fun _ => (Extends.refl _ _).bind fun r => ?_
  dsimp only
  split
  · split
    · exact .refl _ _
    refine Extends.bind ?_ fun _ => .refl _ _
    unfold maybeAddOrphan
    split
    · exact .refl _ _
    exact (Extends.refl _ _).bind fun _ => (Extends.refl _ _).bind fun _ => (Extends.refl _ _).bind fun _ =>
      (Extends.refl _ _).bind fun _ => (Extends.refl _ _).bind fun _ => (Extends.refl _ _).bind fun _ =>
      extends_limitOrphanPoolSize S n
  · exact (Extends.refl _ _).bind fun _ => (Extends.refl _ _).bind fun _ => (Extends.refl _ _).bind fun _ =>
      (Extends.refl _ _).bind fun _ => (extends_limitTransactionCountLoop S n n 0).bind fun _ => .refl _ _

end Rounds

/-! ## Calls and runs -/

def Returned {α : Type} : Except Failure α → Prop
  | .ok _ => True
  | .error (.error _) => True
  | .error _ => False

/-- Pays a fee, spends earlier transactions, comes with no mass or its mass and with right entries if any, and is
no orphan. -/
structure State.Eligible (V : TransactionFacts) (s : State) (tx : DomainTransaction) (p : Populated) :
    Prop where
  admits : V.Admits tx
  mass : p.mass = 0 ∨ p.mass = V.mass tx.id
  fits : V.Fits tx p
  notOrphan : s.orphansPool.allOrphans.lookup tx.id = none

def Op.Eligible (V : TransactionFacts) (s : State) : Op → Prop
  | .validateAndInsertTransaction tx p _ _ => s.Eligible V tx p
  | .handleNewBlockTransactions transactions => ∀ tx ∈ transactions, V.Pays tx
  | _ => True

/-- The states after runs of calls that return, each eligible in the state before it. -/
inductive Reachable (S : Setup) (V : TransactionFacts) : World → Prop
  | new : Reachable S V World.new
  | call {w w' : World} {op : Op} {r : Except Failure Unit} : Reachable S V w →
      op.Eligible V w.state → Converges (fun n => op.call S n) w (r, w') → Returned r →
      Reachable S V w'

theorem validate_withNew (s : State) (tx : DomainTransaction) (p : Populated) :
    validateTransactionPreUTXOEntry S { s with heap := s.heap.withNew V tx p } tx
      ((s.heap.withNew V tx p).populated s.heap.nextAddress) =
      validateTransactionPreUTXOEntry S s tx { p with mass := V.mass tx.id } := by
  have hp : (s.heap.withNew V tx p).populated s.heap.nextAddress = { p with mass := V.mass tx.id } := by
    simp [Heap.withNew]
  rw [hp]
  rfl

section Submit

variable {tx : DomainTransaction} {p : Populated} (isHighPriority allowOrphan : Bool) {w : World}

theorem total_validateAndInsertTransaction (hc : ConsensusAgrees V S) (hs : w.state.Consistent S V)
    (helig : w.state.Eligible V tx p) (hcond : w.state.Refuses S V tx p ∨ w.state.IndicesInRange tx) :
    Settles S V (· = w) (fun n => validateAndInsertTransaction S n tx p isHighPriority allowOrphan) := by
  rintro w rfl
  obtain ⟨r, ⟨N, hN⟩, hr⟩ := total_insertTransaction hc isHighPriority allowOrphan
    (hs.grow (w.state.heap.grows_withNew tx p)) (w.state.heap.holds_withNew helig.admits helig.fits)
    helig.notOrphan (hcond.imp_left fun ⟨e, he⟩ => ⟨e, (validate_withNew w.state tx p).trans he⟩)
    { w with
      state := { w.state with heap := w.state.heap.withNew V tx p }
      queries := w.queries + 1 } rfl
  refine ⟨r, ⟨N, fun n hn => ?_⟩, hr⟩
  rw [exec_validateAndInsertTransaction hc helig.admits.submitted helig.mass]
  exact hN n hn

theorem validateAndInsertTransaction_panics (hc : ConsensusAgrees V S)
    (hs : w.state.Consistent S V) (helig : w.state.Eligible V tx p)
    (hcond : ¬ (w.state.Refuses S V tx p ∨ w.state.IndicesInRange tx)) :
    ∃ index length w', ∀ n, exec (validateAndInsertTransaction S n tx p isHighPriority allowOrphan) w =
      (.error (.indexOutOfRange index length), w') := by
  obtain ⟨hrefuses, hrange⟩ := not_or.mp hcond
  obtain ⟨index, length, hpanics⟩ := insertTransaction_panics ⟨w.state.heap.nextAddress, tx⟩
    isHighPriority allowOrphan
    (w := { w with
      state := { w.state with heap := w.state.heap.withNew V tx p }
      queries := w.queries + 1 }) (hs.grow (w.state.heap.grows_withNew tx p))
    (fun e he => hrefuses ⟨e, (validate_withNew w.state tx p).symm.trans he⟩) hrange
  exact ⟨index, length, _, fun n =>
    (exec_validateAndInsertTransaction hc helig.admits.submitted helig.mass _ _ w n).trans (hpanics n)⟩

end Submit

variable {w' : World}

theorem consistent_of_total {m : ℕ → M α} {r : Except Failure α}
    (h : Total (fun w => w.state.Consistent S V) m (fun _ w => w.state.Consistent S V)
      (ErrorOrPanic S V)) (hs : w.state.Consistent S V) (hr : Converges m w (r, w'))
    (hreturned : Returned r) : w'.state.Consistent S V := by
  obtain ⟨⟨r', w''⟩, hr', hends⟩ := h w hs
  cases hr.unique hr'
  rcases r with (_ | _ | _ | _) | _
  all_goals first | exact hends | exact hreturned.elim

theorem orPanic {m : ℕ → M α} (h : Settles S V (fun w => w.state.Consistent S V) m) :
    Total (fun w => w.state.Consistent S V) m (fun _ w => w.state.Consistent S V) (ErrorOrPanic S V) :=
  h.weaken (fun _ h => h) (fun _ _ h => h) fun _ _ h => errorOrPanic_of_returnsError h

include hc

/-- The step of `Reachable`. -/
theorem consistent_call {op : Op} {r : Except Failure Unit} (hs : w.state.Consistent S V)
    (helig : op.Eligible V w.state) (hr : Converges (fun n => op.call S n) w (r, w'))
    (hreturned : Returned r) : w'.state.Consistent S V := by
  cases op with
  | validateAndInsertTransaction tx p isHighPriority allowOrphan =>
    by_cases hcond : w.state.Refuses S V tx p ∨ w.state.IndicesInRange tx
    · obtain ⟨⟨r', w''⟩, hr', hends⟩ :=
        (total_validateAndInsertTransaction isHighPriority allowOrphan hc hs helig hcond).discard w rfl
      cases hr.unique hr'
      rcases r with e | a
      · exact hends.2
      · exact hends
    obtain ⟨index, length, w'', hpanics⟩ :=
      validateAndInsertTransaction_panics isHighPriority allowOrphan hc hs helig hcond
    obtain ⟨N, hN⟩ := hr
    have hpanic : exec (validateAndInsertTransaction S N tx p isHighPriority allowOrphan >>=
      fun _ => pure ()) w = (r, w') := hN N le_rfl
    rw [exec_bind, hpanics] at hpanic
    cases hpanic
    exact hreturned.elim
  | handleNewBlockTransactions transactions =>
    refine consistent_of_total (Total.discard ?_) hs hr hreturned
    cases transactions with
    | nil => exact total_throw fun _ _ => trivial
    | cons tx transactions =>
      refine orPanic ((total_handleTransactions hc fun x hx => helig x (by simp [hx])).bind fun _ =>
        total_expireOrphanTransactions.bind fun _ => total_expireOldTransactions.bind fun _ =>
        total_pure fun _ h => h)
  | removeTransaction id removeRedeemers =>
    exact consistent_of_total (orPanic (total_removeTransaction_any id removeRedeemers)) hs hr hreturned
  | removeInvalidTransactions invalid =>
    refine consistent_of_total (orPanic ?_) hs hr hreturned
    exact total_forM fun tx _ => total_removeTransaction_any tx.1 _
  | revalidateHighPriorityTransactions =>
    exact consistent_of_total (total_revalidateHighPriorityTransactions hc).discard hs hr hreturned

theorem consistent_of_reachable (hw : Reachable S V w) : w.state.Consistent S V := by
  induction hw with
  | new => exact consistent_new S V
  | call _ helig hr hreturned ih => exact consistent_call hc ih helig hr hreturned

omit hc

/-- Submitting an eligible transaction returns exactly if it is refused early or names only outputs that exist. -/
theorem validateAndInsertTransaction_returns_iff (hc : ConsensusAgrees V S) {w : World}
    (hw : Reachable S V w) {tx : DomainTransaction} {p : Populated} (helig : w.state.Eligible V tx p)
    (isHighPriority allowOrphan : Bool) :
    (∃ r w', Converges (fun n => validateAndInsertTransaction S n tx p isHighPriority allowOrphan) w
      (r, w') ∧ Returned r) ↔ w.state.Refuses S V tx p ∨ w.state.IndicesInRange tx := by
  have hs := consistent_of_reachable hc hw
  constructor
  · rintro ⟨r, w', ⟨N, hN⟩, hreturned⟩
    by_contra hcond
    obtain ⟨index, length, w'', hpanics⟩ :=
      validateAndInsertTransaction_panics isHighPriority allowOrphan hc hs helig hcond
    cases (hN N le_rfl).symm.trans (hpanics N)
    exact hreturned
  intro hcond
  obtain ⟨⟨r, w'⟩, hr, hends⟩ :=
    total_validateAndInsertTransaction isHighPriority allowOrphan hc hs helig hcond w rfl
  refine ⟨r, w', hr, ?_⟩
  rcases r with e | a
  · obtain ⟨⟨e', rfl⟩, -⟩ := hends
    trivial
  · trivial

/-- Consensus has every transaction with an ID from 100 on, and accepts what spends those. -/
def chainSetup : Setup :=
  { sampleSetup with
    surroundings := fun _ => ⟨some 100, fun _ => 1, fun tx p =>
      let missing := ((List.range tx.inputs.length).filterMap fun j =>
        if (p.utxoEntry j).isSome then none else
          (tx.inputs[j]?).map (·.previousOutpoint)).filter fun o => o.transactionID < 100
      if missing = [] then ⟨fun _ => some ⟨5, ⟨[], 0⟩, 1, false⟩, some 1, none⟩
      else if tx.outpoints.Nodup then
        ⟨fun _ => none, none, some (.missingTxOut missing)⟩
      else ⟨fun _ => none, none, some (.rule "transaction contains duplicate inputs")⟩, true, id⟩ }

/-- Transactions below 100 have the given number of outputs, of amount 1. -/
def chainFacts (outputs : DomainTransactionID → ℕ) (spent : DomainTransactionID → List DomainOutpoint) :
    TransactionFacts where
  submitted _ := True
  outpoints := spent
  amount o := if o.transactionID < 100 then if o.index < outputs o.transactionID then some 1 else none else some 5
  fee _ := 1
  mass _ := 1
  depth id := if id < 100 then id else 0

variable (outputs : DomainTransactionID → ℕ) (spent : DomainTransactionID → List DomainOutpoint)

theorem chain_consensusAgrees : ConsensusAgrees (chainFacts outputs spent) chainSetup where
  mass _ _ _ := rfl
  fee n tx p f _ _ h := by
    simp only [chainSetup] at h
    split_ifs at h
    exact (Option.some.inj h).symm
  fits n tx p _ hfits := by
    intro j input entry hinput hentry
    simp only [ValidationAnswer.populate, hinput, Option.bind_some] at hentry
    cases hj : p.utxoEntry j with
    | some old =>
      simp only [hj, Option.some.injEq] at hentry
      exact hfits j input entry hinput (hj.trans (congrArg some hentry))
    | none =>
      simp only [hj, chainSetup] at hentry
      split_ifs at hentry with hmissing
      · cases hentry
        have hlt := (List.getElem?_eq_some_iff.mp hinput).1
        have hnot : ¬ input.previousOutpoint.transactionID < 100 := by
          simpa using filter_eq_nil_iff.mp hmissing input.previousOutpoint
            (mem_filterMap.mpr ⟨j, mem_range.mpr hlt, by simp [hj, hinput]⟩)
        simp [chainFacts, hnot]
  accepts n tx p h := by
    simp only [chainSetup] at h ⊢
    split_ifs at h ⊢
    refine ⟨rfl, fun i hi => ?_⟩
    cases hp : p.utxoEntry i <;> simp [ValidationAnswer.populate, hp, hi]
  misses n tx p outpoints h := by
    simp only [chainSetup] at h
    split_ifs at h with hmissing hnodup
    · simp only [Option.some.injEq, ConsensusError.missingTxOut.injEq] at h
      exact ⟨h ▸ hmissing, hnodup⟩
    · simp at h

variable {outputs spent}

theorem chain_eligible {s : State} {tx : DomainTransaction} (hid : tx.id < 100)
    (houtputs : tx.outputs = replicate (outputs tx.id) ⟨1, ⟨[], 0⟩⟩) (hspent : tx.outpoints = spent tx.id)
    (hdepth : ∀ o ∈ spent tx.id, (chainFacts outputs spent).depth o.transactionID < tx.id)
    (horphan : s.orphansPool.allOrphans.lookup tx.id = none) :
    s.Eligible (chainFacts outputs spent) tx ⟨fun _ => none, 0, 0⟩ where
  admits := {
    submitted := trivial
    outpoints := hspent
    pays := fun i => by
      by_cases hi : i < outputs tx.id <;> simp [chainFacts, DomainTransaction.outpoint, hid, houtputs, hi]
    fee := one_ne_zero
    mass := one_ne_zero
    depth := fun o ho => by simpa [chainFacts, hid] using hdepth o (hspent ▸ ho) }
  mass := .inl rfl
  fits := fun _ _ _ _ h => by cases h
  notOrphan := horphan

theorem Reachable.submit (hw : Reachable S V w) {n : ℕ} {tx : DomainTransaction} {p : Populated}
    {isHighPriority allowOrphan : Bool} (accepted : List TransactionPointer) (helig : w.state.Eligible V tx p)
    (h : (exec (validateAndInsertTransaction S n tx p isHighPriority allowOrphan) w).1 = .ok accepted) :
    Reachable S V (exec (validateAndInsertTransaction S n tx p isHighPriority allowOrphan) w).2 :=
  hw.call (show Op.Eligible V w.state (.validateAndInsertTransaction tx p isHighPriority allowOrphan) from helig)
    (converges_of_extends (fun n => (extends_validateAndInsertTransaction S n tx p _ _).bind fun _ => .refl _ _)
      (exec_discard_ok (Prod.ext h rfl)) nofun) trivial

/-- Transaction 1 is in the pool. -/
def oneSubmitted : World :=
  (exec (validateAndInsertTransaction chainSetup 10 (sampleTransaction 1 [⟨100, 0⟩]) ⟨fun _ => none, 0, 0⟩ false true)
    World.new).2

def chainSpent (id : DomainTransactionID) : List DomainOutpoint := if id = 1 then [⟨100, 0⟩] else [⟨id - 1, 0⟩]

theorem oneSubmitted_reachable : Reachable chainSetup (chainFacts (fun _ => 1) chainSpent) oneSubmitted :=
  Reachable.new.submit [⟨0, sampleTransaction 1 [⟨100, 0⟩]⟩] (chain_eligible (by decide) rfl rfl (by decide) rfl)
    (by decide +kernel)

/-- Transaction 2 spends the output of transaction 1. -/
theorem validateAndInsertTransaction_returns_iff_second :
    (oneSubmitted.state.transactionsPool.allTransactions.lookup 1).isSome ∧
      ∃ r w', Converges (fun n => validateAndInsertTransaction chainSetup n (sampleTransaction 2 [⟨1, 0⟩])
        ⟨fun _ => none, 0, 0⟩ false false) oneSubmitted (r, w') ∧ Returned r := by
  refine ⟨by decide +kernel, (validateAndInsertTransaction_returns_iff (chain_consensusAgrees (fun _ => 1) chainSpent)
    oneSubmitted_reachable (chain_eligible (by decide) rfl rfl (by decide) (by decide +kernel)) false false).mpr
    (.inr ?_)⟩
  unfold State.IndicesInRange
  decide +kernel

/-- Transaction 1 is in the pool and has one output; 2 spends its eighth. -/
theorem validateAndInsertTransaction_indexOutOfRange :
    (exec (validateAndInsertTransaction sampleSetup 10 (sampleTransaction 2 [⟨1, 7⟩])
      ⟨fun _ => none, 0, 0⟩ false false) (runOps sampleSetup [sampleSubmit 1 [⟨100, 0⟩]] World.new)).1 =
        .error (.indexOutOfRange 7 1) := by
  decide +kernel

end Kaspad.Mempool
