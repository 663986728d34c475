import Kaspad.Mempool.OrphanRemoval

/-! # What the operations do to the pools

Every operation of the mempool is a sequence of a few changes: a transaction leaves the pool or
enters it, an orphan is stored, orphans are dropped, an object is written; everything else is out of
sight of the pools. A property of the mempool that each of these changes keeps is kept by every
operation, so that an invariant is proved change by change and not operation by operation.
-/

namespace Kaspad.Mempool
open Lib Lib.Prog Nat OrphansPool

/-! ## The changes -/

structure OrphansPool.Sheds (op op' : OrphansPool) : Prop where
  within : op.Within op'
  indexed : op.Indexed → op'.Indexed

theorem OrphansPool.Sheds.refl (op : OrphansPool) : op.Sheds op :=
  ⟨⟨fun _ _ h => h, fun _ _ h => h⟩, id⟩

/-- A change that leaves the pool, its indices and the objects alone and adds no orphan. -/
structure World.Framed (w w' : World) : Prop where
  all : w'.state.transactionsPool.allTransactions = w.state.transactionsPool.allTransactions
  chained : w'.state.transactionsPool.chainedTransactionsByParentID =
    w.state.transactionsPool.chainedTransactionsByParentID
  index : w'.state.mempoolUTXOSet = w.state.mempoolUTXOSet
  orphans : w.state.orphansPool.Sheds w'.state.orphansPool
  content : w'.state.heap.content = w.state.heap.content
  populated : w'.state.heap.populated = w.state.heap.populated
  next : w.state.heap.nextAddress ≤ w'.state.heap.nextAddress
  writes : w'.indexWrites = w.indexWrites

def World.entered (w : World) (t : MempoolTransaction) : World :=
  { w with state := w.state.registered t, indexWrites := ⟨t, w.state⟩ :: w.indexWrites }

def World.left (S : Setup) (w : World) (t : MempoolTransaction) : World :=
  { w with state := w.state.unregistered S t, indexWrites := ⟨t, w.state⟩ :: w.indexWrites }

def clearedEntries (removed : DomainTransactionID) (tx : DomainTransaction)
    (utxoEntry : ℕ → Option UTXOEntry) (j : ℕ) : Option UTXOEntry :=
  if ((tx.inputs[j]?).any fun input => input.previousOutpoint.transactionID = removed) then none
  else utxoEntry j

def World.wrote (w : World) (tx : TransactionPointer) (p : Populated) : World :=
  { w with state.heap.populated := Function.update w.state.heap.populated tx.address p }

variable {S : Setup} {known : DomainTransaction → Prop} {forgets : DomainTransactionID → Prop}
  {P : World → Prop} {α : Type}

/-- Nothing that `P` speaks of is touched by a change that the pools do not see. -/
def Framable (P : World → Prop) : Prop := ∀ {w w' : World}, P w → w.Framed w' → P w'

structure Indifferent (tx : TransactionPointer) (P : World → Prop) : Prop where
  frame : Framable P
  write : ∀ {w : World} (p : Populated), P w → P (w.wrote tx p)

/-- Removals keep `P`. Entries of orphans for outputs of a transaction are cleared only if `forgets` says so. -/
structure Removable (S : Setup) (known : DomainTransaction → Prop)
    (forgets : DomainTransactionID → Prop) (P : World → Prop) : Prop where
  frame : Framable P
  pool : ∀ {w : World} {id : DomainTransactionID} {t : MempoolTransaction}, P w →
    w.state.transactionsPool.allTransactions.lookup id = some t → known t.transaction.content ∧ t.id = id
  chained : ∀ {w : World} {id : DomainTransactionID} {l : List MempoolTransaction} {t : MempoolTransaction}, P w →
    w.state.transactionsPool.chainedTransactionsByParentID.lookup id = some l → t ∈ l → known t.transaction.content
  leave : ∀ {w : World} {t : MempoolTransaction}, P w → known t.transaction.content → P (w.left S t)
  clear : ∀ {w : World} {o : DomainOutpoint} {orphan : OrphanTransaction}
    {removed : DomainTransactionID}, P w → forgets removed →
    w.state.transactionsPool.allTransactions.lookup removed = none →
    w.state.orphansPool.orphansByPreviousOutpoint.lookup o = some orphan →
      P (w.wrote orphan.transaction { w.state.heap.populated orphan.transaction.address with
        utxoEntry := clearedEntries removed orphan.transaction.content
          (w.state.heap.populated orphan.transaction.address).utxoEntry })

/-! ## Steps that the pools do not see -/

variable {k : State → M α} {Q R : World → Prop} {tx : TransactionPointer} {t : MempoolTransaction}
  {removeRedeemers : Bool} {id : DomainTransactionID} {orphan : OrphanTransaction} {w : World}

theorem keeps_getState_bind (h : ∀ w : World, P w → P (exec (k w.state) w).2) : Keeps P (getState >>= k) := h

theorem leads_getState_bind (h : ∀ s : State, Leads P Q (k s)) : Leads P Q (getState >>= k) :=
  fun w hw => h w.state w hw

theorem keeps_populatedOf (tx : TransactionPointer) : Keeps P (populatedOf tx) := fun _ hw => hw

theorem keeps_ofExcept (r : Except MempoolError α) : Keeps P (ofExcept r) := by
  cases r
  · exact keeps_throw _
  · exact keeps_pure _

theorem keeps_ofChecked (r : Except Failure α) : Keeps P (ofChecked r) := by
  cases r
  · exact keeps_throw _
  · exact keeps_pure _

theorem keeps_query (hP : Framable P) (f : Surroundings → α) : Keeps P (query S f) :=
  fun _ hw => hP hw ⟨rfl, rfl, rfl, .refl _, rfl, rfl, le_refl _, rfl⟩

theorem keeps_getVirtualDAAScore (hP : Framable P) : Keeps P (getVirtualDAAScore S) := by
  refine (keeps_query hP _).bind fun score => ?_
  cases score
  · exact keeps_throw _
  · exact keeps_pure _

theorem keeps_setPopulated (hP : Indifferent tx P) (p : Populated) :
    Keeps P (setPopulated tx p) := fun _ hw => hP.write p hw

theorem keeps_validateWithConsensus (hP : Indifferent tx P) : Keeps P (validateWithConsensus S tx) :=
  (keeps_populatedOf tx).bind fun _ => (keeps_query hP.frame _).bind fun _ =>
    (keeps_setPopulated hP _).bind fun _ => keeps_pure _

theorem leads_newMempoolTransaction_bind (hP : Framable P) {k : MempoolTransaction → M α}
    (h : ∀ t : MempoolTransaction, t.transaction = tx → Leads P Q (k t))
    (parents : GoMap DomainTransactionID MempoolTransaction) (isHighPriority : Bool) (score : ℕ) :
    Leads P Q (newMempoolTransaction tx parents isHighPriority score >>= k) :=
  fun _ hw => h _ rfl _ (hP hw ⟨rfl, rfl, rfl, .refl _, rfl, rfl, le_succ _, rfl⟩)

variable (op : OrphansPool)

theorem sheds_removeOrphan (id : DomainTransactionID) (removeRedeemers : Bool) :
    op.Sheds (exec (OrphansPool.removeOrphan id removeRedeemers) op).2 where
  within := within_removeOrphan op id removeRedeemers op (OrphansPool.Sheds.refl op).within
  indexed hi := by
    obtain ⟨op', hexec, hop', -⟩ := exec_removeOrphan id removeRedeemers op hi
    rw [hexec]
    exact hop'.indexed

theorem sheds_removeRedeemersOf (tx : DomainTransaction) :
    op.Sheds (exec (OrphansPool.removeRedeemersOf tx) op).2 where
  within := within_removeRedeemersOf op tx op (OrphansPool.Sheds.refl op).within
  indexed hi := by
    obtain ⟨op', hexec, hop'⟩ := exec_removeRedeemersOf tx op hi
    rw [hexec]
    exact hop'.indexed

theorem exec_onOrphans (m : OrphansPool.O α) (w : World) : exec (onOrphans m) w = ((exec m w.state.orphansPool).1,
      { w with state := { w.state with orphansPool := (exec m w.state.orphansPool).2 } }) := by
  unfold onOrphans
  rcases hr : m.exec w.state.orphansPool with ⟨e | a, op⟩ <;>
    simp [getState, modifyState, exec_bind, hr, -bind_pure_comp]

theorem keeps_onOrphans (hP : Framable P) {m : OrphansPool.O α}
    (h : ∀ op : OrphansPool, op.Sheds (exec m op).2) : Keeps P (onOrphans m) := by
  intro w hw
  rw [exec_onOrphans]
  exact hP hw ⟨rfl, rfl, rfl, h _, rfl, rfl, le_refl _, rfl⟩

theorem keeps_removeOrphan (hP : Framable P) (id : DomainTransactionID) (removeRedeemers : Bool) :
    Keeps P (onOrphans (OrphansPool.removeOrphan id removeRedeemers)) :=
  keeps_onOrphans hP fun op => sheds_removeOrphan op id removeRedeemers

/-! ## Removing -/

theorem keeps_clearOrphanInputs (hP : Removable S known forgets P) {removed : DomainTransaction}
    (hforgets : forgets removed.id) :
    Keeps (fun w => P w ∧ w.state.transactionsPool.allTransactions.lookup removed.id = none)
      (clearOrphanInputs removed) := by
  refine keeps_forM fun i _ => keeps_getState_bind fun w hw => ?_
  split
  · exact hw
  rename_i orphan horphan
  exact ⟨hP.clear hw.1 hforgets hw.2 horphan, hw.2⟩

theorem keeps_removeTransactionFromSets (hP : Removable S known forgets P)
    (ht : known t.transaction.content) (hforgets : removeRedeemers = false → forgets t.id) :
    Keeps P (removeTransactionFromSets S removeRedeemers t) := by
  refine keeps_getState_bind fun w hw => ?_
  have hleft : Leads P (fun w => P w ∧ w.state.transactionsPool.allTransactions.lookup t.id = none)
      (writeIndex t fun s => s.unregistered S t) := by
    refine fun w hw => ⟨hP.leave hw ht, ?_⟩
    change (w.state.unregistered S t).transactionsPool.allTransactions.lookup t.id = none
    rw [lookup_unregistered, if_pos rfl]
  have hrest : Keeps (fun w => P w ∧ w.state.transactionsPool.allTransactions.lookup t.id = none)
      (updateOrphansAfterTransactionRemoved t.transaction.content removeRedeemers) := by
    cases removeRedeemers with
    | true =>
      refine keeps_onOrphans (fun {w w'} hw hf => ⟨hP.frame hw.1 hf, ?_⟩) fun op => sheds_removeRedeemersOf op _
      rw [hf.all]
      exact hw.2
    | false => exact keeps_clearOrphanInputs hP (hforgets rfl)
  exact (hleft.bind fun _ => (keeps_ofExcept _).bind fun _ => hrest) w hw |>.1

theorem keeps_removeTransaction (hP : Removable S known forgets P) (rounds : ℕ)
    (hforgets : removeRedeemers = false → forgets id) : Keeps P (removeTransaction S rounds id removeRedeemers) := by
  refine keeps_getState_bind fun w hw => ?_
  split
  · exact keeps_removeOrphan hP.frame id true w hw
  split
  · exact hw
  rename_i t hall
  obtain ⟨ht, hid⟩ := hP.pool hw hall
  split
  · exact hw
  rename_i redeemers hredeemers
  have hknown : ∀ x ∈ t :: redeemers, known x.transaction.content := by
    intro x hx
    rcases List.mem_cons.mp hx with rfl | hx
    · exact ht
    obtain ⟨k, l, hl, hxl⟩ := TransactionsPool.mem_getRedeemers _ _ hredeemers hx
    exact hP.chained hw hl hxl
  split
  · exact ((keeps_forM fun x hx => keeps_removeTransactionFromSets hP (hknown x hx)
      fun h => by cases h).bind fun _ => keeps_onOrphans hP.frame fun op =>
        sheds_removeRedeemersOf op _) w hw
  rename_i hkeep
  refine ((keeps_forM fun x _ => ?_).bind fun _ => keeps_removeTransactionFromSets hP ht
    fun _ => hid ▸ hforgets (by simpa using hkeep)) w hw
  exact fun w hw => hP.frame hw ⟨rfl, rfl, rfl, .refl _, rfl, rfl, le_refl _, rfl⟩

theorem keeps_removeDoubleSpends (hP : Removable S known forgets P) (rounds : ℕ)
    (tx : DomainTransaction) : Keeps P (removeDoubleSpends S rounds tx) := by
  refine keeps_forM fun input _ => keeps_getState_bind fun w hw => ?_
  split
  · exact keeps_removeTransaction hP rounds (fun h => by cases h) w hw
  · exact hw

theorem keeps_limitTransactionCountLoop (hP : Removable S known forgets P)
    (rounds n currentIndex : ℕ) : Keeps P (limitTransactionCountLoop S rounds n currentIndex) := by
  induction n generalizing currentIndex with
  | zero => exact keeps_throw _
  | succ n ih =>
    refine keeps_getState_bind fun w hw => ?_
    dsimp only
    split
    · refine ((keeps_ofChecked _).bind fun found => ?_) w hw
      split
      · exact keeps_pure _
      refine (keeps_removeTransaction hP rounds fun h => by cases h).bind fun _ =>
        keeps_getState_bind fun w hw => ?_
      split
      · exact hw
      · exact ih _ w hw
    · exact hw

theorem keeps_expireOrphanTransactions (hP : Framable P) : Keeps P (expireOrphanTransactions S) := by
  refine (keeps_getVirtualDAAScore hP).bind fun score => keeps_getState_bind fun w hw => ?_
  dsimp only
  split
  · exact hw
  refine ((keeps_query hP _).bind fun order => Keeps.bind ?_ fun _ w hw => hP hw
    ⟨rfl, rfl, rfl, ?_, rfl, rfl, le_refl _, rfl⟩) w hw
  · refine keeps_forM fun orphan _ => keeps_getState_bind fun w hw => ?_
    split
    · exact keeps_removeOrphan hP _ false w hw
    · exact hw
  · exact ⟨⟨fun _ _ h => h, fun _ _ h => h⟩, fun hi => ⟨hi.key, hi.nodup, hi.listed, hi.owned⟩⟩

theorem keeps_expireOldTransactions (hP : Removable S known forgets P) (rounds : ℕ) :
    Keeps P (expireOldTransactions S rounds) := by
  refine (keeps_getVirtualDAAScore hP.frame).bind fun score => keeps_getState_bind fun w hw =>
    ((keeps_query hP.frame _).bind fun passed => ?_) w hw
  split
  · exact keeps_pure _
  refine (keeps_query hP.frame _).bind fun order => Keeps.bind ?_ fun _ w hw =>
    hP.frame hw ⟨rfl, rfl, rfl, .refl _, rfl, rfl, le_refl _, rfl⟩
  refine keeps_forM fun t _ => keeps_getState_bind fun w hw => ?_
  split
  · exact keeps_removeTransaction hP rounds (fun h => by cases h) w hw
  · exact hw

theorem keeps_limitOrphanPoolSize (hP : Framable P) (rounds : ℕ) : Keeps P (limitOrphanPoolSize S rounds) := by
  induction rounds with
  | zero => exact keeps_throw _
  | succ rounds ih =>
    refine keeps_getState_bind fun w hw => ?_
    dsimp only
    split
    · refine ((keeps_query hP _).bind fun order => ?_) w hw
      split
      · exact keeps_pure _
      · exact (keeps_removeOrphan hP _ false).bind fun _ => ih
    · exact hw

/-! ## Entering -/

theorem leads_ofExcept_bind {β : Type} {r : Except MempoolError β} {k : β → M α}
    (hPQ : ∀ w, P w → Q w) (h : ∀ a, r = .ok a → Leads P Q (k a)) : Leads P Q (ofExcept r >>= k) := by
  cases r with
  | error e => exact hPQ
  | ok a => exact h a rfl

theorem leads_addMempoolTransaction (hP : Framable P) (henter : ∀ w, R w → P (w.entered t)) :
    Leads R P (addMempoolTransaction S t) := by
  have hwrite : Leads R P (writeIndex t fun s => s.registered t) := henter
  refine hwrite.bind fun _ => keeps_getState_bind fun w hw => ?_
  refine ((keeps_ofExcept _).bind fun slice => Keeps.bind ?_ fun _ => ?_) w hw
  · exact fun w hw => hP hw ⟨rfl, rfl, rfl, .refl _, rfl, rfl, le_refl _, rfl⟩
  split
  · exact fun w hw => hP hw ⟨rfl, rfl, rfl, .refl _, rfl, rfl, le_refl _, rfl⟩
  · exact keeps_pure _

theorem leads_addTransaction (hP : Framable P) (hR : Framable R) (hRP : ∀ w, R w → P w)
    (henter : ∀ t : MempoolTransaction, t.transaction = tx → ∀ w, R w → P (w.entered t))
    (parents : GoMap DomainTransactionID MempoolTransaction) (isHighPriority : Bool) :
    Leads R P (addTransaction S tx parents isHighPriority) :=
  (keeps_getVirtualDAAScore hR).leads_bind hRP fun score => leads_newMempoolTransaction_bind hR
    (fun t ht => (leads_addMempoolTransaction hP (henter t ht)).bind fun _ => keeps_pure _) _ _ score

theorem removeOrphan_gone (id : DomainTransactionID) (removeRedeemers : Bool) :
    (exec (OrphansPool.removeOrphan id removeRedeemers) op).2.allOrphans.lookup id = none := by
  unfold OrphansPool.removeOrphan
  rw [exec_bind, exec_get]
  dsimp only
  cases ho : op.allOrphans.lookup id with
  | none =>
    have hwithin := (within_removeOrphanBounded op (GoMap.size op.allOrphans) id removeRedeemers op
      (OrphansPool.Sheds.refl op).within).1 id
    cases h : (exec (OrphansPool.removeOrphanBounded (GoMap.size op.allOrphans) id removeRedeemers)
        op).2.allOrphans.lookup id with
    | none => rfl
    | some o => rw [hwithin o h] at ho; cases ho
  | some orphan =>
    have hsize := GoMap.size_erase ho
    obtain ⟨depth, hdepth⟩ : ∃ depth, GoMap.size op.allOrphans = depth + 1 :=
      ⟨GoMap.size op.allOrphans - 1, by omega⟩
    rw [hdepth]
    unfold OrphansPool.removeOrphanBounded
    rw [exec_bind, exec_get]
    simp only [ho]
    rw [exec_bind, exec_modify]
    have herased : ({ op with allOrphans := op.allOrphans.erase id } : OrphansPool).allOrphans.lookup
        id = none := by simp
    generalize ({ op with allOrphans := op.allOrphans.erase id } : OrphansPool) = op₁ at herased
    have hwithin : Keeps op₁.Within (do
        OrphansPool.removeInputs id 0 orphan.transaction.content.inputs
        if removeRedeemers then
          OrphansPool.forRedeemersOf (fun redeemer => OrphansPool.removeOrphanBounded depth redeemer true)
            orphan.transaction.content) := by
      refine (within_removeInputs op₁ id 0 _).bind fun _ => ?_
      split
      · exact within_forRedeemersOf op₁ _ (fun id => within_removeOrphanBounded op₁ depth id true) _
      · exact keeps_pure _
    have hfinal := (hwithin op₁ (OrphansPool.Sheds.refl op₁).within).1 id
    refine Option.eq_none_iff_forall_ne_some.mpr fun o h => ?_
    rw [hfinal o h] at herased
    cases herased

/-- All changes keep `P`. An orphan that is submitted again may enter the pool only if `resubmits`. -/
structure Stable (S : Setup) (known : DomainTransaction → Prop) (resubmits : Prop)
    (P : World → Prop) : Prop extends Removable S known (fun _ => True) P where
  heap : ∀ {w : World} (h : Heap), P w → P { w with state.heap := h }
  released : ∀ {w : World} {o : DomainOutpoint} {orphan : OrphanTransaction}, P w →
    w.state.orphansPool.orphansByPreviousOutpoint.lookup o = some orphan → known orphan.transaction.content
  enter : ∀ {w : World} {t : MempoolTransaction}, P w → known t.transaction.content →
    w.state.orphansPool.allOrphans.lookup t.id = none ∨ resubmits → P (w.entered t)
  store : ∀ {w : World} {orphan : OrphanTransaction}, P w → known orphan.transaction.content →
    w.state.transactionsPool.allTransactions.lookup orphan.id = none →
      P { w with state.orphansPool := w.state.orphansPool.insertOrphan orphan }

variable {resubmits : Prop} (hP : Stable S known resubmits P)
include hP in
theorem Stable.indifferent (tx : TransactionPointer) : Indifferent tx P :=
  ⟨hP.frame, fun _ hw => hP.heap _ hw⟩

def Admissible (resubmits : Prop) (id : DomainTransactionID) (w : World) : Prop :=
  w.state.orphansPool.allOrphans.lookup id = none ∨ resubmits

theorem admissible_framed : Framable (Admissible resubmits id) := by
  intro w w' hw hf
  refine hw.imp_left fun hnone => ?_
  refine Option.eq_none_iff_forall_ne_some.mpr fun o h => ?_
  rw [hf.orphans.within.1 id o h] at hnone
  cases hnone

include hP in
theorem Stable.indifferent_admissible (id : DomainTransactionID) (tx : TransactionPointer) :
    Indifferent tx fun w => P w ∧ Admissible resubmits id w where
  frame hw hf := ⟨hP.frame hw.1 hf, admissible_framed hw.2 hf⟩
  write _ hw := ⟨hP.heap _ hw.1, hw.2⟩

theorem leads_unorphanTransaction (hP : Framable P) (hR : Indifferent orphan.transaction R) (hRP : ∀ w, R w → P w)
    (henter : ∀ t : MempoolTransaction, t.transaction = orphan.transaction → ∀ w, R w → P (w.entered t))
    (hgone : R (exec (onOrphans (OrphansPool.removeOrphan orphan.id false)) w).2) :
    P (exec (unorphanTransaction S orphan) w).2 := by
  have hrest : ∀ e, Leads R P (match e with
      | some e => fail (consensusFailure e)
      | none => do
        ofChecked (validateTransactionInContext S orphan.transaction.content (← populatedOf orphan.transaction))
        let virtualDAAScore ← getVirtualDAAScore S
        let parents := (← getState).transactionsPool.getParentTransactionsInPool
          orphan.transaction.content
        let t ← newMempoolTransaction orphan.transaction parents false virtualDAAScore
        addMempoolTransaction S t) := by
    intro e
    cases e with
    | some e => exact hRP
    | none =>
      exact (keeps_populatedOf _).leads_bind hRP fun _ => (keeps_ofChecked _).leads_bind hRP fun _ =>
        (keeps_getVirtualDAAScore hR.frame).leads_bind hRP fun score =>
        leads_getState_bind fun s => leads_newMempoolTransaction_bind hR.frame (fun t ht =>
          leads_addMempoolTransaction hP (henter t ht)) _ false score
  have hfirst : Leads (· = w) R (onOrphans (OrphansPool.removeOrphan orphan.id false)) := by
    rintro w rfl
    exact hgone
  unfold unorphanTransaction
  rw [exec_bind]
  have hw' := hfirst w rfl
  rcases hexec : exec (onOrphans (OrphansPool.removeOrphan orphan.id false)) w with ⟨e | a, w'⟩ <;>
    rw [hexec] at hw'
  · exact hRP _ hw'
  · exact (keeps_validateWithConsensus (S := S) hR).leads_bind hRP hrest w' hw'

include hP

theorem keeps_unorphanTransaction (ho : known orphan.transaction.content) :
    Keeps P (unorphanTransaction S orphan) := by
  intro w hw
  refine leads_unorphanTransaction hP.frame (hP.indifferent_admissible orphan.id orphan.transaction)
    (fun _ h => h.1) (fun t ht w hw => hP.enter hw.1 (ht ▸ ho) ?_)
    ⟨keeps_removeOrphan hP.frame orphan.id false w hw, .inl ?_⟩
  · have hid : t.id = orphan.id := congrArg (·.content.id) ht
    rw [hid]
    exact hw.2
  · rw [exec_onOrphans]
    exact removeOrphan_gone _ _ _

variable (accepted : DomainTransaction)

theorem keeps_processOrphansOfOutput (i : ℕ) (output : DomainTransactionOutput) :
    Keeps P (processOrphansOfOutput S accepted i output) := by
  refine keeps_getState_bind fun w hw => ?_
  split
  · exact hw
  rename_i orphan horphan
  have ho := hP.released hw horphan
  refine ((keeps_populatedOf _).bind fun p => ?_) w hw
  split
  on_goal 2 => refine (keeps_setPopulated (hP.indifferent _) _).bind fun _ => ?_
  all_goals
    refine (keeps_populatedOf _).bind fun _ => ?_
    split
    · refine ((keeps_unorphanTransaction hP ho).bind fun _ => keeps_pure _).tryCatch fun e => ?_
      split
      · exact keeps_pure _
      · exact keeps_throw _
    · exact keeps_pure _

theorem keeps_processOrphansFrom (i : ℕ) (outputs : List DomainTransactionOutput) :
    Keeps P (processOrphansFrom S accepted i outputs) := by
  induction outputs generalizing i with
  | nil => exact keeps_pure _
  | cons output outputs ih =>
    exact (keeps_processOrphansOfOutput hP accepted i output).bind fun _ =>
      (ih (i + 1)).bind fun _ => keeps_pure _

omit hP

theorem keeps_fillInputsAndGetMissingParents (hP : Indifferent tx P) :
    Keeps P (fillInputsAndGetMissingParents S tx) := by
  refine keeps_getState_bind fun w hw => ((keeps_populatedOf tx).bind fun _ =>
    (keeps_ofChecked _).bind fun _ => (keeps_setPopulated hP _).bind fun _ =>
    (keeps_validateWithConsensus hP).bind fun e => ?_) w hw
  split
  · exact keeps_pure _
  · exact keeps_pure _
  · exact keeps_throw _

theorem keeps_populateMass (hP : Indifferent tx P) : Keeps P (populateMass S tx) := by
  refine (keeps_populatedOf tx).bind fun p => (keeps_query hP.frame _).bind fun mass => ?_
  split
  · exact keeps_setPopulated hP _
  · exact keeps_pure _

theorem not_in_pool_of_valid {s : State} {tx : DomainTransaction} {p : Populated} {a : Unit}
    (h : validateTransactionPreUTXOEntry S s tx p = .ok a) :
    s.transactionsPool.allTransactions.lookup tx.id = none := by
  unfold validateTransactionPreUTXOEntry validateTransactionInIsolation at h
  by_cases hin : (s.transactionsPool.allTransactions.lookup tx.id).isSome
  · simp [hin, bind, Except.bind] at h
  · simpa using hin

theorem leads_maybeAddOrphan (hP : Framable P) (hR : Framable R) (hRP : ∀ w, R w → P w) (isHighPriority : Bool)
    (hstore : ∀ score w, R w → P { w with
      state.orphansPool := w.state.orphansPool.insertOrphan ⟨tx, isHighPriority, score⟩ })
    (rounds : ℕ) : Leads R P (maybeAddOrphan S rounds tx isHighPriority) := by
  unfold maybeAddOrphan
  split
  · exact hRP
  have hadd : Leads R P (addOrphan S tx isHighPriority) :=
    (keeps_getVirtualDAAScore hR).leads_bind hRP fun score w hw => hstore score w hw
  exact fun w hw => ((keeps_ofExcept _).leads_bind hRP fun _ =>
    (keeps_populatedOf _).leads_bind hRP fun _ => (keeps_ofExcept _).leads_bind hRP fun _ =>
    (keeps_ofExcept _).leads_bind hRP fun _ => hadd.bind fun _ =>
    keeps_limitOrphanPoolSize hP rounds) w hw

include hP in
theorem leads_insertTransaction (rounds : ℕ) (tx : TransactionPointer) (ht : known tx.content)
    (isHighPriority allowOrphan : Bool) : Leads (fun w => P w ∧ Admissible resubmits tx.content.id w) P
      (insertTransaction S rounds tx isHighPriority allowOrphan) := by
  -- After the first check the transaction is not in the pool, until it enters it.
  let R : World → Prop := fun w => (P w ∧ Admissible resubmits tx.content.id w) ∧
    w.state.transactionsPool.allTransactions.lookup tx.content.id = none
  have hR : Indifferent tx R :=
    ⟨fun {w w'} hw hf => ⟨(hP.indifferent_admissible _ tx).frame hw.1 hf, hf.all ▸ hw.2⟩,
      fun p hw => ⟨(hP.indifferent_admissible _ tx).write p hw.1, hw.2⟩⟩
  have hRP : ∀ w, R w → P w := fun w hw => hw.1.1
  refine fun w hw => (leads_ofExcept_bind (P := (· = w)) (Q := P) (fun _ h => h ▸ hw.1) fun a hvalid => ?_) w rfl
  have hnew := not_in_pool_of_valid hvalid
  rintro w rfl
  refine ((keeps_fillInputsAndGetMissingParents hR).leads_bind hRP fun result => ?_) w ⟨hw, hnew⟩
  dsimp only
  split
  · split
    · exact hRP
    exact (leads_maybeAddOrphan hP.frame hR.frame hRP isHighPriority
      (fun score w hw => hP.store hw.1.1 ht hw.2) rounds).bind fun _ => keeps_pure _
  refine (keeps_populatedOf tx).leads_bind hRP fun _ => (keeps_ofChecked _).leads_bind hRP fun _ =>
    (leads_addTransaction hP.frame hR.frame hRP (fun t htx w hw => hP.enter hw.1.1 (htx ▸ ht) ?_)
      _ _).bind fun t => (keeps_processOrphansFrom hP _ 0 _).bind fun _ =>
    (keeps_limitTransactionCountLoop hP.toRemovable rounds rounds 0).bind fun _ => keeps_pure _
  have hid : t.id = tx.content.id := congrArg (·.content.id) htx
  rw [hid]
  exact hw.1.2

/-! ## The exported operations -/

include hP

theorem leads_validateAndInsertTransaction (rounds : ℕ) {tx : DomainTransaction} (ht : known tx)
    (p : Populated) (isHighPriority allowOrphan : Bool) : Leads (fun w => P w ∧ Admissible resubmits tx.id w) P
      (validateAndInsertTransaction S rounds tx p isHighPriority allowOrphan) := by
  intro w hw
  -- The object of the caller gets a fresh address, and has the caller's content.
  have hrest := (keeps_populateMass (S := S)
    (hP.indifferent_admissible tx.id ⟨w.state.heap.nextAddress, tx⟩)).leads_bind (fun _ h => h.1)
    fun _ => leads_insertTransaction hP rounds ⟨w.state.heap.nextAddress, tx⟩ ht isHighPriority allowOrphan
  exact hrest _ ⟨hP.heap _ hw.1, hw.2⟩

theorem keeps_handleTransactions (rounds : ℕ) (transactions : List DomainTransaction) :
    Keeps P (handleTransactions S rounds transactions) := by
  induction transactions with
  | nil => exact keeps_pure _
  | cons tx transactions ih =>
    exact (keeps_removeTransaction hP.toRemovable rounds fun _ => trivial).bind fun _ =>
      (keeps_removeDoubleSpends hP.toRemovable rounds tx).bind fun _ =>
      (keeps_removeOrphan hP.frame tx.id false).bind fun _ =>
      (keeps_processOrphansFrom hP tx 0 _).bind fun _ => ih.bind fun _ => keeps_pure _

theorem keeps_revalidateTransaction (rounds : ℕ) (t : MempoolTransaction) :
    Keeps P (revalidateTransaction S rounds t) := by
  have hind := hP.indifferent t.transaction
  refine (keeps_populatedOf _).bind fun _ => (keeps_setPopulated hind _).bind fun _ =>
    (keeps_fillInputsAndGetMissingParents hind).bind fun result => ?_
  dsimp only
  split
  · exact (keeps_removeTransaction hP.toRemovable rounds fun _ => trivial).bind fun _ => keeps_pure _
  · exact keeps_pure _

theorem keeps_revalidateLoop (rounds n : ℕ) (dag : TxDAG) (queue : List DomainTransactionID) :
    Keeps P (revalidateLoop S rounds n dag queue) := by
  induction n generalizing dag queue with
  | zero =>
    cases queue
    · exact keeps_pure _
    · exact keeps_throw _
  | succ n ih =>
    cases queue with
    | nil => exact keeps_pure _
    | cons id queue =>
      unfold revalidateLoop
      split
      · exact keeps_throw _
      split
      · exact ih _ _
      split
      · exact keeps_throw _
      exact (keeps_revalidateTransaction hP rounds _).bind fun _ =>
        (keeps_query hP.frame _).bind fun _ => (ih _ _).bind fun _ => keeps_pure _

theorem Stable.call (rounds : ℕ) {op : Op} (hw : P w) (hknown : ∀ tx ∈ op.submitted, known tx)
    (hadmissible : ∀ tx ∈ op.submitted, Admissible resubmits tx.id w) : P (exec (op.call S rounds) w).2 := by
  cases op with
  | validateAndInsertTransaction tx p isHighPriority allowOrphan =>
    exact (leads_validateAndInsertTransaction hP rounds (hknown tx rfl) p isHighPriority
      allowOrphan).discard w ⟨hw, hadmissible tx rfl⟩
  | handleNewBlockTransactions transactions =>
    refine Keeps.discard ?_ w hw
    cases transactions with
    | nil => exact keeps_throw _
    | cons _ transactions =>
      exact (keeps_handleTransactions hP rounds transactions).bind fun _ =>
        (keeps_expireOrphanTransactions hP.frame).bind fun _ =>
        (keeps_expireOldTransactions hP.toRemovable rounds).bind fun _ => keeps_pure _
  | removeTransaction id removeRedeemers =>
    exact keeps_removeTransaction hP.toRemovable rounds (fun _ => trivial) w hw
  | removeInvalidTransactions invalid =>
    exact keeps_forM (fun _ _ => keeps_removeTransaction hP.toRemovable rounds fun _ => trivial) w hw
  | revalidateHighPriorityTransactions =>
    exact Keeps.discard (keeps_getState_bind fun w hw => ((keeps_query hP.frame _).bind fun _ =>
      keeps_revalidateLoop hP rounds rounds _ _) w hw) w hw

omit hP

theorem Stable.runOps (hP : Stable S known True P) (run : List (ℕ × Op))
    (hknown : ∀ step ∈ run, ∀ tx ∈ step.2.submitted, known tx) (hw : P w) : P (runOps S run w) := by
  induction run generalizing w with
  | nil => exact hw
  | cons step run ih =>
    exact ih (fun step' hstep' => hknown step' (by simp [hstep']))
      (hP.call step.1 hw (hknown step (by simp)) fun _ _ => .inr trivial)

end Kaspad.Mempool
