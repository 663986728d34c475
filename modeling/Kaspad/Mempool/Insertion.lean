import Kaspad.Mempool.Removal

/-! # Inserting a transaction into a consistent mempool

Every stage of `validateAndInsertTransaction` after the inputs are filled in returns and leaves the
mempool consistent. Filling in the inputs is the stage that can fail otherwise: it uses the index of
an outpoint on the outputs of the pool transaction that the outpoint names, without a check.
-/

namespace Kaspad.Mempool
open Lib Lib.Prog List Nat OrphansPool

variable {S : Setup} {V : TransactionFacts}

/-! ## Consensus validation -/

/-- A property of the mempool that does not depend on the entries that validation fills in. -/
def HeapStable (V : TransactionFacts) (P : State → Prop) : Prop :=
  ∀ s h, P s → s.heap.Grows V h → P { s with heap := h }

structure State.Fresh (S : Setup) (V : TransactionFacts) (tx : TransactionPointer) (s : State) :
    Prop where
  consistent : s.Consistent S V
  holds : s.heap.Holds V tx
  pool : s.transactionsPool.allTransactions.lookup tx.content.id = none
  orphan : s.orphansPool.allOrphans.lookup tx.content.id = none

theorem heapStable_fresh (tx : TransactionPointer) : HeapStable V (State.Fresh S V tx) :=
  fun _ _ hs hg => ⟨hs.consistent.grow hg, hs.holds.grow hg, hs.pool, hs.orphan⟩

def Filled (tx : DomainTransaction) (p : Populated) : Prop :=
  ∀ i < tx.inputs.length, (p.utxoEntry i).isSome

variable {P : State → Prop} {E : Failure → World → Prop} {f : Failure} {α : Type} {s : State}
  {tx : TransactionPointer} {parents : GoMap DomainTransactionID MempoolTransaction}
  {orphan : OrphanTransaction} {op : OrphansPool} (hc : ConsensusAgrees V S)

omit hc in
theorem TransactionFacts.Fits.exist {tx : DomainTransaction} {p : Populated} (h : V.Fits tx p)
    (hfilled : Filled tx p) : ∀ o ∈ tx.outpoints, (V.amount o).isSome := by
  intro o ho
  obtain ⟨input, hinput, rfl⟩ := mem_map.mp ho
  obtain ⟨j, hj, rfl⟩ := getElem_of_mem hinput
  obtain ⟨entry, hentry⟩ := Option.isSome_iff_exists.mp (hfilled j hj)
  rw [h j _ entry (getElem?_eq_getElem hj) hentry]
  rfl

include hc in
theorem total_validateWithConsensus (hP : HeapStable V P) (tx : TransactionPointer) :
    Total (fun w => P w.state ∧ w.state.heap.Holds V tx) (fun _ => validateWithConsensus S tx)
      (fun e w => P w.state ∧ w.state.heap.Holds V tx ∧ (e = none → w.state.heap.Paid V tx ∧
          Filled tx.content (w.state.heap.populated tx.address)) ∧ ∀ outpoints, e = some (.missingTxOut outpoints) →
          outpoints ≠ [] ∧ tx.content.outpoints.Nodup) E := by
  refine total_of_exec fun w hw => ?_
  obtain ⟨hw, hheld⟩ := hw
  let p := w.state.heap.populated tx.address
  let answer := (S.surroundings w.queries).validate tx.content p
  have hgrows := hheld.grows_update (p := answer.populate tx.content p) rfl (by
    unfold ValidationAnswer.populate
    cases hfee : answer.fee with
    | none => exact .inl rfl
    | some fee => exact .inr (hc.fee w.queries tx.content p fee hheld.admitted.submitted hheld.fits hfee))
    (hc.fits w.queries tx.content p hheld.admitted.submitted hheld.fits)
  refine ⟨hP _ _ hw hgrows, hheld.grow hgrows, fun hnone => ?_, hc.misses w.queries tx.content p⟩
  obtain ⟨hsome, hfilled⟩ := hc.accepts w.queries tx.content p hnone
  obtain ⟨fee, hfee⟩ := Option.isSome_iff_exists.mp hsome
  have hpopulated : (Function.update w.state.heap.populated tx.address
      (answer.populate tx.content p)) tx.address = answer.populate tx.content p := by simp
  refine ⟨⟨hheld.grow hgrows, ?_, ?_⟩, ?_⟩
  · change ((Function.update w.state.heap.populated tx.address (answer.populate tx.content p)) tx.address).fee = _
    rw [hpopulated]
    change answer.fee.getD p.fee = _
    rw [show answer.fee = some fee from hfee, Option.getD_some]
    exact hc.fee w.queries tx.content p fee hheld.admitted.submitted hheld.fits hfee
  · exact (hc.fits w.queries tx.content p hheld.admitted.submitted hheld.fits).exist hfilled
  change Filled tx.content ((Function.update w.state.heap.populated tx.address
    (answer.populate tx.content p)) tx.address)
  rw [hpopulated]
  exact hfilled

/-! ## Checks that read the UTXO entries -/

variable (utxoEntry : ℕ → Option UTXOEntry)

theorem hasCoinbaseInput_ok (i : ℕ) (inputs : List DomainTransactionInput)
    (h : ∀ j, i ≤ j → j < i + inputs.length → (utxoEntry j).isSome) :
    ∃ b, hasCoinbaseInput utxoEntry i inputs = .ok b := by
  induction inputs generalizing i with
  | nil => exact ⟨false, rfl⟩
  | cons input inputs ih =>
    simp only [length_cons] at h
    obtain ⟨entry, hentry⟩ := Option.isSome_iff_exists.mp (h i (le_refl _) (by omega))
    unfold hasCoinbaseInput
    rw [hentry]
    dsimp only
    split
    · exact ⟨true, rfl⟩
    · exact ih (i + 1) fun j hj hlt => h j (by omega) (by omega)

theorem checkInputsStandardInContext_returns (i : ℕ) (inputs : List DomainTransactionInput)
    (h : ∀ j, i ≤ j → j < i + inputs.length → (utxoEntry j).isSome)
    (hf : checkInputsStandardInContext S utxoEntry i inputs = .error f) : ∃ e, f = .error e := by
  induction inputs generalizing i with
  | nil => cases hf
  | cons input inputs ih =>
    simp only [length_cons] at h
    obtain ⟨entry, hentry⟩ := Option.isSome_iff_exists.mp (h i (le_refl _) (by omega))
    have hrest := ih (i + 1) fun j hj hlt => h j (by omega) (by omega)
    unfold checkInputsStandardInContext at hf
    rw [hentry] at hf
    dsimp only at hf
    split at hf
    · split at hf
      · cases hf
        exact ⟨_, rfl⟩
      · exact hrest hf
    · cases hf
      exact ⟨_, rfl⟩
    · exact hrest hf

theorem validateTransactionInContext_returns {tx : DomainTransaction} {p : Populated}
    (hfilled : Filled tx p) (hf : validateTransactionInContext S tx p = .error f) : ∃ e, f = .error e := by
  have hentries : ∀ j, 0 ≤ j → j < 0 + tx.inputs.length → (p.utxoEntry j).isSome :=
    fun j _ hj => hfilled j (by omega)
  obtain ⟨b, hb⟩ := hasCoinbaseInput_ok p.utxoEntry 0 tx.inputs hentries
  unfold validateTransactionInContext at hf
  rw [hb] at hf
  simp only [bind, Except.bind] at hf
  split at hf
  · cases hf
    exact ⟨_, rfl⟩
  split at hf
  · cases hf
  cases hcheck : checkTransactionStandardInContext S tx p with
  | ok a => rw [hcheck] at hf; cases hf
  | error f' =>
    obtain ⟨e, rfl⟩ : ∃ e, f' = .error e := by
      unfold checkTransactionStandardInContext at hcheck
      cases hinputs : checkInputsStandardInContext S p.utxoEntry 0 tx.inputs with
      | error f'' =>
        rw [hinputs] at hcheck
        cases hcheck
        exact checkInputsStandardInContext_returns p.utxoEntry 0 tx.inputs hentries hinputs
      | ok a =>
        rw [hinputs] at hcheck
        simp only [bind, Except.bind] at hcheck
        split at hcheck
        · cases hcheck
          exact ⟨_, rfl⟩
        · cases hcheck
    rw [hcheck] at hf
    cases hf
    exact ⟨_, rfl⟩

theorem total_ofChecked (hP : ∀ s, P s → s.Consistent S V) {r : Except Failure α}
    (hr : ∀ f, r = .error f → ∃ e, f = .error e) :
    Total (fun w => P w.state) (fun _ => ofChecked r) (fun a w => P w.state ∧ r = .ok a) (ReturnsError S V) := by
  cases r with
  | error f =>
    obtain ⟨e, rfl⟩ := hr f rfl
    exact total_throw fun w hw => ⟨⟨e, rfl⟩, hP _ hw⟩
  | ok a => exact total_pure fun w hw => ⟨hw, rfl⟩

theorem State.Consistent.parentsOf (hs : s.Consistent S V) (tx : DomainTransaction) :
    s.ParentsOf tx (s.transactionsPool.getParentTransactionsInPool tx) := by
  intro e he
  rw [GoMap.mem_entries_iff, lookup_getParentTransactionsInPool _ hs.key] at he
  split_ifs at he with hid
  obtain ⟨o, ho, heq⟩ := mem_map.mp hid
  have hkey := hs.key he
  exact ⟨by rw [hkey, he]; rfl, o, ho, heq.trans hkey.symm⟩

theorem exec_enter (isHighPriority : Bool) (score : ℕ) {w : World}
    (hparents : w.state.ParentsOf tx.content parents) (hfresh : w.state.Fresh S V tx) (hpaid : w.state.heap.Paid V tx) :
    ∃ t w₁ w₂, exec (newMempoolTransaction tx parents isHighPriority score) w = (.ok t, w₁) ∧
      exec (addMempoolTransaction S t) w₁ = (.ok (), w₂) ∧ t.transaction = tx ∧ w₂.state.Consistent S V := by
  let a := w.state.heap.nextAddress
  let h := { w.state.heap with
    parentTransactionsInPool := Function.update w.state.heap.parentTransactionsInPool a parents
    nextAddress := a + 1 }
  have hgrows : w.state.heap.Grows V h :=
    ⟨le_succ _, fun _ _ => rfl, fun _ _ => rfl, fun _ _ => .inl rfl, fun _ _ h => h⟩
  let t : MempoolTransaction := ⟨a, tx, isHighPriority, score⟩
  have hcons := hfresh.consistent.grow hgrows
  have hpaid' := hpaid.grow hgrows
  refine ⟨t, { w with state := { w.state with heap := h } }, _, rfl, exec_addMempoolTransaction hcons hpaid' rfl, rfl, ?_⟩
  refine hcons.entered (t := t) hpaid' hfresh.pool hfresh.orphan fun e he => ?_
  have hself : h.parentTransactionsInPool t.address = parents := by simp [h, t]
  have he' := he
  rw [hself] at he'
  exact hparents e he'

/-! ## Releasing orphans -/

theorem total_populatedOf_bind {k : Populated → ℕ → M α} {Q : α → World → Prop}
    (hk : ∀ s, P s → Total (fun w => w.state = s) (k (s.heap.populated tx.address)) Q E) :
    Total (fun w => P w.state) (fun n => populatedOf tx >>= fun p => k p n) Q E := by
  intro w hw
  obtain ⟨r, ⟨N, hN⟩, hr⟩ := hk w.state hw w rfl
  exact ⟨r, ⟨N, hN⟩, hr⟩

include hc

theorem total_unorphanTransaction (hs : s.Consistent S V)
    (ho : s.orphansPool.allOrphans.lookup orphan.id = some orphan) :
    Settles S V (fun w => w.state = s) (fun _ => unorphanTransaction S orphan) := by
  have hremoved : Total (fun w => w.state = s) (fun _ => onOrphans (OrphansPool.removeOrphan orphan.id false))
      (fun _ w => w.state.Fresh S V orphan.transaction ∧
        w.state.heap.Holds V orphan.transaction) (ReturnsError S V) := by
    refine (total_onOrphans (exec_removeOrphan orphan.id false s.orphansPool
      hs.orphans)).post ?_
    rintro - w ⟨op, hw, hop, -⟩
    rw [hw]
    exact ⟨⟨hs.orphans_within hop.within hop.indexed, hs.orphanObjects ho, hs.apart ho, hop.gone⟩,
      hs.orphanObjects ho⟩
  refine hremoved.bind fun _ =>
    (total_validateWithConsensus hc (heapStable_fresh orphan.transaction) orphan.transaction).bind
    fun e => ?_
  cases e with
  | some e => exact total_throw fun w hw => ⟨⟨_, rfl⟩, hw.1.consistent⟩
  | none =>
    let P : State → Prop := fun s => s.Fresh S V orphan.transaction ∧
      s.heap.Paid V orphan.transaction ∧
      Filled orphan.transaction.content (s.heap.populated orphan.transaction.address)
    have hP : ∀ s, P s → s.Consistent S V := fun s hs => hs.1.consistent
    refine Total.pre (P := fun w => P w.state) ?_ fun w hw => ⟨hw.1, (hw.2.2.1 rfl).1, (hw.2.2.1 rfl).2⟩
    refine total_populatedOf_bind fun s₁ hs₁ => ?_
    refine ((total_ofChecked (P := fun s => s = s₁) (fun s hs => hs ▸ hP _ hs₁) fun f hf =>
      validateTransactionInContext_returns hs₁.2.2 hf).post fun _ w hw => (hw.1 ▸ hs₁ : P w.state)).bind fun _ =>
      (total_getVirtualDAAScore hP).bind fun score => total_getState_bind fun s₂ hs₂ => ?_
    refine total_of_exec fun w hw => ?_
    subst hw
    obtain ⟨t, w₁, w₂, hnew, hadd, -, hcons⟩ :=
      exec_enter false score (hs₂.1.consistent.parentsOf orphan.transaction.content) hs₂.1 hs₂.2.1
    rw [exec_bind, hnew]
    dsimp only
    rw [hadd]
    exact hcons

variable (accepted : DomainTransaction)

omit hc in
theorem unfilledInput_some {utxoEntry : ℕ → Option UTXOEntry} {o : DomainOutpoint}
    {inputs : List DomainTransactionInput} {i j : ℕ}
    (h : unfilledInput o utxoEntry i inputs = some j) :
    i ≤ j ∧ utxoEntry j = none ∧ ∃ input, inputs[j - i]? = some input ∧ input.previousOutpoint = o := by
  induction inputs generalizing i with
  | nil => cases h
  | cons input inputs ih =>
    unfold unfilledInput at h
    split at h
    · rename_i hfound
      cases h
      exact ⟨le_rfl, by simpa using hfound.2, input, by simp, hfound.1⟩
    obtain ⟨hle, hnone, input', hinput', ho⟩ := ih h
    refine ⟨by omega, hnone, input', ?_, ho⟩
    rw [← hinput', show j - i = (j - (i + 1)) + 1 by omega, List.getElem?_cons_succ]

theorem total_processOrphansOfOutput {i : ℕ} {output : DomainTransactionOutput}
    (hvalue : V.amount (accepted.outpoint i) = some output.value) :
    Settles S V (fun w => w.state.Consistent S V) (fun _ => processOrphansOfOutput S accepted i output) := by
  refine total_getState_bind fun s hs => ?_
  cases ho : s.orphansPool.orphansByPreviousOutpoint.lookup (accepted.outpoint i) with
  | none => exact total_pure fun w hw => hw ▸ hs
  | some orphan =>
    obtain ⟨hall, -⟩ := hs.orphans.owned ho
    have hheld := hs.orphanObjects hall
    let P : State → Prop := fun s => s.Consistent S V ∧
      s.orphansPool.allOrphans.lookup orphan.id = some orphan
    refine total_populatedOf_bind (P := (· = s)) ?_
    rintro s rfl
    cases hj : unfilledInput (accepted.outpoint i) (s.heap.populated orphan.transaction.address).utxoEntry 0
        orphan.transaction.content.inputs
    on_goal 1 => refine Total.pre (P := fun w => P w.state) ?_ fun w hw => hw ▸ ⟨hs, hall⟩
    on_goal 2 =>
      refine (total_modifyState (P := (· = s)) (R := P) ?_).bind fun _ => ?_
      · rintro s rfl
        obtain ⟨-, -, input, hinput, hspends⟩ := unfilledInput_some hj
        refine ⟨hs.grow (hheld.grows_update rfl (.inl rfl) (hheld.fits.update fun input' hinput' => ?_)), hall⟩
        rw [Nat.sub_zero, hinput', Option.some.injEq] at hinput
        rw [hinput, hspends, hvalue]
        rfl
    all_goals
      refine total_populatedOf_bind fun s₁ hs₁ => ?_
      by_cases hcount : countUnfilledInputs orphan.transaction.content
          (s₁.heap.populated orphan.transaction.address) = 0
      · simp only [hcount, if_true]
        refine ((total_unorphanTransaction hc hs₁.1 hs₁.2).bind fun _ =>
          total_pure fun _ h => h).tryCatch fun e => ?_
        split
        · exact total_pure fun w hw => hw.2
        · exact total_throw fun w hw => hw
      · simp only [hcount, if_false]
        exact total_pure fun w hw => hw ▸ hs₁.1

theorem total_processOrphansFrom {i : ℕ} {outputs : List DomainTransactionOutput}
    (hpays : ∀ k, V.amount (accepted.outpoint (i + k)) = (outputs[k]?).map (·.value)) :
    Settles S V (fun w => w.state.Consistent S V) (fun _ => processOrphansFrom S accepted i outputs) := by
  induction outputs generalizing i with
  | nil => exact total_pure fun _ h => h
  | cons output outputs ih =>
    refine (total_processOrphansOfOutput hc accepted (hpays 0)).bind fun _ =>
      (ih fun k => ?_).bind fun _ => total_pure fun _ h => h
    rw [show i + 1 + k = i + (k + 1) by omega]
    exact hpays (k + 1)

theorem total_processOrphans (hpays : V.Pays accepted) : Settles S V (fun w => w.state.Consistent S V)
    (fun _ => processOrphansAfterAcceptedTransaction S accepted) :=
  total_processOrphansFrom hc accepted fun k => by rw [zero_add]; exact hpays k

omit hc

theorem total_addTransaction (isHighPriority : Bool) :
    Total (fun w => w.state.Fresh S V tx ∧ w.state.heap.Paid V tx ∧ w.state.ParentsOf tx.content parents)
      (fun _ => addTransaction S tx parents isHighPriority)
      (fun t w => t.transaction = tx ∧ w.state.Consistent S V) (ReturnsError S V) := by
  refine (total_getVirtualDAAScore (P := fun s => s.Fresh S V tx ∧ s.heap.Paid V tx ∧ s.ParentsOf tx.content parents)
    fun s hs => hs.1.consistent).bind fun score => total_of_exec fun w hw => ?_
  obtain ⟨t, w₁, w₂, hnew, hadd, htx, hcons⟩ := exec_enter isHighPriority score hw.2.2 hw.1 hw.2.1
  rw [exec_bind, hnew]
  dsimp only
  rw [exec_bind, hadd]
  exact ⟨htx, hcons⟩

/-! ## Storing an orphan -/

theorem checkOrphanDoubleSpend_ok {id : DomainTransactionID} {inputs : List DomainTransactionInput}
    {a : Unit} (h : op.checkOrphanDoubleSpend id inputs = .ok a) :
    ∀ p ∈ inputs.map (·.previousOutpoint), op.orphansByPreviousOutpoint.lookup p = none := by
  induction inputs with
  | nil => simp
  | cons input inputs ih =>
    unfold OrphansPool.checkOrphanDoubleSpend at h
    cases hl : op.orphansByPreviousOutpoint.lookup input.previousOutpoint with
    | some o => simp [hl] at h
    | none =>
      rw [hl] at h
      exact forall_mem_cons.mpr ⟨hl, ih h⟩

variable (isHighPriority : Bool)

theorem total_addOrphan (hnodup : tx.content.outpoints.Nodup) (hs : s.Fresh S V tx)
    (hfree : ∀ p ∈ tx.content.outpoints, s.orphansPool.orphansByPreviousOutpoint.lookup p = none) :
    Settles S V (fun w => w.state = s) (fun _ => addOrphan S tx isHighPriority) := by
  refine (total_getVirtualDAAScore (P := (· = s)) fun _ h => h ▸ hs.consistent).bind fun score =>
    total_modifyState (P := (· = s)) (R := State.Consistent S V) ?_
  rintro s rfl
  have hall : ∀ id, (s.orphansPool.insertOrphan ⟨tx, isHighPriority, score⟩).allOrphans.lookup id =
      if id = tx.content.id then some ⟨tx, isHighPriority, score⟩
      else s.orphansPool.allOrphans.lookup id := fun id => GoMap.lookup_set _ _ _ _
  constructor
  case key => exact hs.consistent.key
  case listed => exact hs.consistent.listed
  case sorted => exact hs.consistent.sorted
  case paid => exact hs.consistent.paid
  case chained => exact hs.consistent.chained
  case highPriority => exact hs.consistent.highPriority
  case orphans => exact hs.consistent.orphans.insertOrphan hs.orphan hnodup hfree
  case orphanObjects =>
    intro id o ho
    rw [hall] at ho
    by_cases hid : id = tx.content.id
    · rw [if_pos hid, Option.some.injEq] at ho
      exact ho ▸ hs.holds
    rw [if_neg hid] at ho
    exact hs.consistent.orphanObjects ho
  case apart =>
    intro id o ho
    rw [hall] at ho
    by_cases hid : id = tx.content.id
    · rw [hid]
      exact hs.pool
    rw [if_neg hid] at ho
    exact hs.consistent.apart ho

theorem lookup_randomNonHighPriorityOrphan {order : DomainTransactionID → ℕ} (hi : op.Indexed)
    (h : op.randomNonHighPriorityOrphan order = some orphan) : op.allOrphans.lookup orphan.id = some orphan := by
  unfold OrphansPool.randomNonHighPriorityOrphan GoMap.rangeBy at h
  have hmem := mem_of_find?_eq_some h
  rw [mem_map] at hmem
  obtain ⟨e, he, rfl⟩ := hmem
  rw [(perm_insertionSort _ _).mem_iff, GoMap.mem_entries_iff] at he
  rw [hi.key he, he]

theorem total_limitOrphanPoolSize (n : ℕ) :
    Settles S V (fun w => w.state.Consistent S V ∧ GoMap.size w.state.orphansPool.allOrphans ≤ n)
      (fun rounds => limitOrphanPoolSize S rounds) := by
  induction n with
  | zero =>
    refine .of_succ (total_getState_bind (P := fun s => s.Consistent S V ∧
      GoMap.size s.orphansPool.allOrphans ≤ 0) fun s hs => ?_)
    have hle : ¬ GoMap.size s.orphansPool.allOrphans > S.config.maximumOrphanTransactionCount := by
      omega
    simp only [hle, if_false]
    exact total_pure fun w hw => hw ▸ hs.1
  | succ n ih =>
    refine .of_succ (total_getState_bind (P := fun s => s.Consistent S V ∧
      GoMap.size s.orphansPool.allOrphans ≤ n + 1) fun s hs => ?_)
    by_cases hsize : GoMap.size s.orphansPool.allOrphans > S.config.maximumOrphanTransactionCount
    · simp only [hsize, if_true]
      refine (total_query (· = s) _).bind fun order => ?_
      cases ho : s.orphansPool.randomNonHighPriorityOrphan order with
      | none => exact total_pure fun w hw => hw.1 ▸ hs.1
      | some orphan =>
        have hin := lookup_randomNonHighPriorityOrphan hs.1.orphans ho
        refine Total.bind ((total_onOrphans (exec_removeOrphan orphan.id false
          s.orphansPool hs.1.orphans)).weaken (fun _ h => h.1) ?_ fun _ _ h => h) fun _ => ih
        rintro - w ⟨op, hw, hop, -⟩
        rw [hw]
        have hlt := hop.smaller (by simp [hin])
        exact ⟨hs.1.orphans_within hop.within hop.indexed, by dsimp only; omega⟩
    · simp only [hsize, if_false]
      exact total_pure fun w hw => hw ▸ hs.1

theorem total_maybeAddOrphan (hnodup : tx.content.outpoints.Nodup) :
    Settles S V (fun w => w.state.Fresh S V tx) (fun n => maybeAddOrphan S n tx isHighPriority) := by
  unfold maybeAddOrphan
  by_cases hmax : S.config.maximumOrphanTransactionCount = 0
  · simp only [hmax, if_true]
    exact total_pure fun w hw => hw.consistent
  simp only [hmax, if_false]
  refine total_getState_bind fun s hs => ?_
  have hP : ∀ s', s' = s → s'.Consistent S V := fun _ h => h ▸ hs.consistent
  refine (total_ofExcept hP _).bind fun _ => Total.pre (P := fun w => w.state = s) ?_ fun _ h => h.1
  refine total_populatedOf_bind (P := (· = s)) fun s' hs' => ?_
  refine ((total_ofExcept (P := (· = s)) hP _).pre fun _ h => h.trans hs').bind fun _ =>
    Total.pre (P := fun w => w.state = s) ?_ fun _ h => h.1
  refine (total_ofExcept (P := (· = s)) hP _).bind fun _ w hw => ?_
  refine ((total_addOrphan isHighPriority hnodup hs (checkOrphanDoubleSpend_ok hw.2)).bind
    fun _ w' hw' => ?_) w hw.1
  exact total_limitOrphanPoolSize _ w' ⟨hw', le_refl _⟩

theorem skipHighPriority_ok {slice : List MempoolTransaction} {count currentIndex : ℕ}
    (hcount : slice.length = count) (h : currentIndex < slice.length) :
    ∃ r, TransactionsPool.skipHighPriority slice.length count currentIndex
        (slice.drop currentIndex) = .ok r ∧ ∀ i t, r = some (i, t) → t ∈ slice := by
  rw [drop_eq_getElem_cons h]
  unfold TransactionsPool.skipHighPriority
  split
  · refine ⟨_, rfl, fun i t hit => ?_⟩
    cases hit
    exact getElem_mem h
  split_ifs
  · exact ⟨none, rfl, by simp⟩
  · exact skipHighPriority_ok hcount (by omega)
termination_by slice.length - currentIndex

theorem total_limitTransactionCountLoop (m : ℕ) : ∀ (f : ℕ → ℕ) (currentIndex : ℕ),
    (∀ n, n ≤ f n) → Settles S V (fun w => w.state.Consistent S V ∧ w.state.count ≤ m ∧
        (currentIndex = 0 ∨ currentIndex < GoMap.size w.state.transactionsPool.allTransactions))
      (fun n => limitTransactionCountLoop S (f n) n currentIndex) := by
  induction m with
  | zero =>
    intro f currentIndex hf
    refine .of_succ (total_getState_bind (P := fun s => s.Consistent S V ∧ s.count ≤ 0 ∧
      (currentIndex = 0 ∨ currentIndex < GoMap.size s.transactionsPool.allTransactions))
      fun s hs => ?_)
    have hsize : ¬ GoMap.size s.transactionsPool.allTransactions > S.config.maximumTransactionCount := by
      have := hs.2.1
      unfold State.count at this
      omega
    simp only [hsize, if_false]
    exact total_pure fun w hw => hw ▸ hs.1
  | succ m ih =>
    intro f currentIndex hf
    refine .of_succ (total_getState_bind (P := fun s => s.Consistent S V ∧ s.count ≤ m + 1 ∧
      (currentIndex = 0 ∨ currentIndex < GoMap.size s.transactionsPool.allTransactions))
      fun s hs => ?_)
    obtain ⟨hcons, hcount, hindex⟩ := hs
    by_cases hsize : GoMap.size s.transactionsPool.allTransactions > S.config.maximumTransactionCount
    · simp only [hsize, if_true]
      have hlt : currentIndex < s.transactionsPool.transactionsOrderedByFeeRate.length := by
        rw [hcons.length_listed]
        omega
      obtain ⟨r, hr, hmem⟩ := skipHighPriority_ok hcons.length_listed hlt
      refine (total_ofChecked (P := (· = s)) (fun _ h => h ▸ hcons)
        (fun e he => by rw [hr] at he; cases he)).bind fun a w hw => ?_
      obtain rfl : r = a := Except.ok.inj (hr.symm.trans hw.2)
      rcases r with - | ⟨i, t⟩
      · exact total_pure (P := fun w => w.state = s) (fun w hw => hw ▸ hcons) w hw.1
      have hin : (s.transactionsPool.allTransactions.lookup t.id).isSome := by
        rw [(hcons.listed t).mp (hmem i t rfl)]
        rfl
      have hf' : ∀ n, n ≤ f (n + 1) := fun n => le_trans (le_succ n) (hf (n + 1))
      refine (((total_removeTransaction hcons t.id true).comp hf').bind fun _ =>
        total_getState_bind (P := fun s' => s.Shrunk S V s' ∧
        ((s.transactionsPool.allTransactions.lookup t.id).isSome → s'.count < s.count))
        fun s' hs' => ?_) w hw.1
      have hless := hs'.2 hin
      by_cases hend : GoMap.size s'.transactionsPool.allTransactions ≤ i
      · simp only [hend, if_true]
        exact total_pure fun w hw => hw ▸ hs'.1.consistent
      simp only [hend, if_false]
      refine (ih (fun n => f (n + 1)) i hf').pre fun w hw => ?_
      rw [hw]
      exact ⟨hs'.1.consistent, by omega, .inr (by omega)⟩
    · simp only [hsize, if_false]
      exact total_pure fun w hw => hw ▸ hcons

theorem total_limitTransactionCount : Settles S V (fun w => w.state.Consistent S V) (fun n => limitTransactionCount S n) :=
  fun w hw => total_limitTransactionCountLoop w.state.count id 0 (fun _ => le_refl _) w
    ⟨hw, le_refl _, .inl rfl⟩

end Kaspad.Mempool
