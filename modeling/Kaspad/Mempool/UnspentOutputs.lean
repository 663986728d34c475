import Kaspad.Mempool.SpentIndex

/-! # The unspent outputs of the pool

`poolUnspentOutputs` should hold the outputs of pool transactions that no pool transaction spends.
When a transaction enters the pool, the outputs it spends should leave the map, but the outpoints
that are deleted have the ID of the transaction itself. So the map has every output of the pool,
spent or not, and is right only as long as no pool transaction spends an output of another one.
-/

namespace Kaspad.Mempool
open Lib Lib.Prog AList List

/-- The index lists the outputs of the pool that nothing in the pool spends. -/
def State.UnspentExact (s : State) : Prop :=
  ∀ o, o ∈ s.mempoolUTXOSet.poolUnspentOutputs ↔ s.PoolCreates o ∧ ∀ t, s.InPool t → o ∉ t.outpoints

/-- The pool transaction with the same ID has as many outputs, and what is spent of pool
transactions are outputs that they have. -/
def IndexWrite.Fits (write : IndexWrite) : Prop :=
  (∀ x, write.before.transactionsPool.allTransactions.lookup write.transaction.id = some x →
    x.transaction.content.outputs.length = write.transaction.transaction.content.outputs.length) ∧
    ∀ o ∈ write.transaction.outpoints, (write.before.transactionsPool.allTransactions.lookup o.transactionID).isSome →
        write.before.PoolCreates o

section
variable {t : MempoolTransaction} {mpus : MempoolUTXOSet} {o : DomainOutpoint}

theorem mem_addInputs (i : ℕ) (inputs : List DomainTransactionInput) :
    (o ∈ (MempoolUTXOSet.addInputs t i inputs mpus).poolUnspentOutputs → o ∈ mpus.poolUnspentOutputs) ∧
      (o ∈ mpus.poolUnspentOutputs → o.transactionID ≠ t.id →
        o ∈ (MempoolUTXOSet.addInputs t i inputs mpus).poolUnspentOutputs) := by
  induction inputs generalizing i mpus with
  | nil => exact ⟨id, fun h _ => h⟩
  | cons input inputs ih =>
    obtain ⟨hsub, hkept⟩ := ih (i + 1)
    refine ⟨fun h => (mem_erase.mp (hsub h)).2, fun h hid => hkept (mem_erase.mpr ⟨?_, h⟩) hid⟩
    exact fun heq => hid (congrArg DomainOutpoint.transactionID heq)

theorem mem_addOutputs (i : ℕ) (outputs : List DomainTransactionOutput) :
    o ∈ (MempoolUTXOSet.addOutputs t i outputs mpus).poolUnspentOutputs ↔
      o.transactionID = t.id ∧ i ≤ o.index ∧ o.index < i + outputs.length ∨ o ∈ mpus.poolUnspentOutputs := by
  induction outputs generalizing i mpus with
  | nil => grind [MempoolUTXOSet.addOutputs]
  | cons output outputs ih =>
    unfold MempoolUTXOSet.addOutputs
    rw [ih, mem_insert, length_cons]
    obtain ⟨id, index⟩ := o
    grind

theorem mem_removeInputs (tp : TransactionsPool) (utxoEntry : ℕ → Option UTXOEntry) (i : ℕ)
    (inputs : List DomainTransactionInput) :
    o ∈ (MempoolUTXOSet.removeInputs tp utxoEntry i inputs mpus).poolUnspentOutputs ↔
      o ∈ mpus.poolUnspentOutputs ∨ o ∈ inputs.map (·.previousOutpoint) ∧
        (tp.allTransactions.lookup o.transactionID).isSome := by
  induction inputs generalizing i mpus with
  | nil => simp [MempoolUTXOSet.removeInputs]
  | cons input inputs ih =>
    unfold MempoolUTXOSet.removeInputs
    rw [ih, map_cons, mem_cons]
    split_ifs with hin
    · rw [mem_insert]
      grind
    · grind

end

/-! ## The two writes -/

section
variable {S : Setup} {s : State} {t : MempoolTransaction} {o : DomainOutpoint}

theorem poolCreates_registered_iff : (s.registered t).PoolCreates o ↔
    o.transactionID = t.id ∧ o.index < t.transaction.content.outputs.length ∨
      o.transactionID ≠ t.id ∧ s.PoolCreates o := by
  unfold State.PoolCreates
  rw [lookup_registered]
  by_cases hid : o.transactionID = t.id <;> simp [hid]

theorem poolCreates_unregistered_iff :
    (s.unregistered S t).PoolCreates o ↔ o.transactionID ≠ t.id ∧ s.PoolCreates o := by
  unfold State.PoolCreates
  rw [lookup_unregistered]
  by_cases hid : o.transactionID = t.id <;> simp [hid]

theorem mem_unregistered_iff : o ∈ (s.unregistered S t).mempoolUTXOSet.poolUnspentOutputs ↔
    ¬ (o.transactionID = t.id ∧ o.index < t.transaction.content.outputs.length) ∧
      (o ∈ s.mempoolUTXOSet.poolUnspentOutputs ∨ o ∈ t.outpoints ∧
        (s.transactionsPool.allTransactions.lookup o.transactionID).isSome) := by
  have hdeleted : o ∈ (List.range t.transaction.content.outputs.length).map (DomainOutpoint.mk t.id) ↔
      o.transactionID = t.id ∧ o.index < t.transaction.content.outputs.length := by
    obtain ⟨id, index⟩ := o
    simp [and_comm, eq_comm]
  unfold State.unregistered MempoolUTXOSet.removeTransaction
  rw [← lookup_isSome, GoMap.lookup_deletes, if_congr hdeleted rfl rfl]
  split_ifs with h
  · simp [h]
  rw [lookup_isSome, mem_removeInputs]
  exact (and_iff_right h).symm

/-- All outputs of the pool are in the map; there are no others if the writes fit. -/
structure World.Covers (w : World) : Prop where
  key : ∀ {id t}, w.state.transactionsPool.allTransactions.lookup id = some t → t.id = id
  mem : ∀ {o}, w.state.PoolCreates o → o ∈ w.state.mempoolUTXOSet.poolUnspentOutputs
  only : (∀ write ∈ w.indexWrites, write.Fits) →
    ∀ {o}, o ∈ w.state.mempoolUTXOSet.poolUnspentOutputs → w.state.PoolCreates o

theorem IndexWrite.Fits.index_lt (h : (IndexWrite.mk t s).Fits) (ho : s.PoolCreates o)
    (hid : o.transactionID = t.id) : o.index < t.transaction.content.outputs.length := by
  obtain ⟨x, hx, hlt⟩ := ho
  rw [hid] at hx
  exact h.1 x hx ▸ hlt

theorem covers_entered {w : World} (hw : w.Covers) (t : MempoolTransaction) : (w.entered t).Covers where
  key {id x} h := by
    obtain ⟨rfl, rfl⟩ | h := of_lookup_registered h
    · rfl
    · exact hw.key h
  mem {o} ho := by
    obtain ⟨hid, hlt⟩ | ⟨hid, ho⟩ := poolCreates_registered_iff.mp ho
    · exact (mem_addOutputs 0 _).mpr (.inl ⟨hid, Nat.zero_le _, by omega⟩)
    · exact (mem_addOutputs 0 _).mpr (.inr ((mem_addInputs 0 _).2 (hw.mem ho) hid))
  only hfits {o} ho := by
    rw [World.entered, forall_mem_cons] at hfits
    apply poolCreates_registered_iff.mpr
    obtain ⟨hid, -, hlt⟩ | ho := (mem_addOutputs 0 _).mp ho
    · exact .inl ⟨hid, by omega⟩
    have ho := hw.only hfits.2 ((mem_addInputs 0 _).1 ho)
    by_cases hid : o.transactionID = t.id
    · exact .inl ⟨hid, hfits.1.index_lt ho hid⟩
    · exact .inr ⟨hid, ho⟩

theorem covers_left {w : World} (hw : w.Covers) (t : MempoolTransaction) : (w.left S t).Covers where
  key h := hw.key (of_lookup_unregistered h).2
  mem {o} ho := by
    obtain ⟨hid, ho⟩ := poolCreates_unregistered_iff.mp ho
    exact mem_unregistered_iff.mpr ⟨fun h => hid h.1, .inl (hw.mem ho)⟩
  only hfits {o} ho := by
    rw [World.left, forall_mem_cons] at hfits
    obtain ⟨hgone, ho⟩ := mem_unregistered_iff.mp ho
    have ho := ho.elim (hw.only hfits.2) fun ho => hfits.1.2 o ho.1 ho.2
    exact poolCreates_unregistered_iff.mpr ⟨fun hid => hgone ⟨hid, hfits.1.index_lt ho hid⟩, ho⟩

end

theorem stable_covers (S : Setup) : Stable S (fun _ => True) True World.Covers where
  frame {w w'} hw hf :=
    { key := by rw [hf.all]; exact hw.key
      mem := by unfold State.PoolCreates; rw [hf.all, hf.index]; exact hw.mem
      only := by unfold State.PoolCreates; rw [hf.all, hf.index, hf.writes]; exact hw.only }
  pool hw h := ⟨trivial, hw.key h⟩
  chained _ _ _ := trivial
  leave hw _ := covers_left hw _
  clear hw _ _ _ := ⟨hw.key, hw.mem, hw.only⟩
  heap _ hw := ⟨hw.key, hw.mem, hw.only⟩
  released _ _ := trivial
  enter hw _ _ := covers_entered hw _
  store hw _ _ := ⟨hw.key, hw.mem, hw.only⟩

/-- The map has all outputs of the pool, and is exact if and only if no pool transaction spends one and it has
nothing else. -/
theorem unspent_exact_iff (S : Setup) (run : List (ℕ × Op)) : let w := runOps S run World.new
    (∀ o, w.state.PoolCreates o → o ∈ w.state.mempoolUTXOSet.poolUnspentOutputs) ∧ (w.state.UnspentExact ↔
        (∀ t, w.state.InPool t → ∀ o ∈ t.outpoints, ¬ w.state.PoolCreates o) ∧
          ∀ o ∈ w.state.mempoolUTXOSet.poolUnspentOutputs, w.state.PoolCreates o) ∧
      ((∀ write ∈ w.indexWrites, write.Fits) →
        ∀ o ∈ w.state.mempoolUTXOSet.poolUnspentOutputs, w.state.PoolCreates o) := by
  have hnew : World.new.Covers := by
    constructor <;> intros <;> simp_all [World.new, State.new, State.PoolCreates]
  have hw := (stable_covers S).runOps run (fun _ _ _ _ => trivial) hnew
  refine ⟨fun _ => hw.mem, ⟨fun h => ⟨fun t ht o ho hcreates => ?_, fun o ho => ((h o).mp ho).1⟩, ?_⟩,
    fun hfits _ => hw.only hfits⟩
  · exact ((h o).mp (hw.mem hcreates)).2 t ht ho
  rintro ⟨hspent, honly⟩ o
  exact ⟨fun ho => ⟨honly o ho, fun t ht hot => hspent t ht o hot (honly o ho)⟩, fun ho => hw.mem ho.1⟩

/-- Transaction 2 spends the output of 1, which stays in the map. -/
theorem unspent_keeps_spent_output : ¬ (runOps sampleSetup
    [sampleSubmit 1 [⟨100, 0⟩], sampleSubmit 2 [⟨1, 0⟩]] World.new).state.UnspentExact := by
  intro h
  have hrun : let s := (runOps sampleSetup
      [sampleSubmit 1 [⟨100, 0⟩], sampleSubmit 2 [⟨1, 0⟩]] World.new).state
      ⟨1, 0⟩ ∈ s.mempoolUTXOSet.poolUnspentOutputs ∧ ∃ t ∈ s.transactionsPool.allTransactions.lookup 2,
        ⟨1, 0⟩ ∈ t.outpoints := by decide +kernel
  obtain ⟨hmem, t, ht, hspent⟩ := hrun
  exact ((h ⟨1, 0⟩).mp hmem).2 t ⟨2, ht⟩ hspent

end Kaspad.Mempool
