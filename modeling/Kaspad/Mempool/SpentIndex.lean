import Kaspad.Mempool.Walk

/-! # The double-spend index of the pool

`transactionByPreviousOutpoint` should map an outpoint to the pool transaction that spends it. It is
written in two places only, when a transaction enters the pool and when one leaves it, and each write is
right as long as none of the outpoints it touches belongs to another transaction. A transaction that
leaves the pool may be one that left it before (a redeemer that is still listed under another parent),
and one that enters may be a released orphan, which nobody compared with the pool.
-/

namespace Kaspad.Mempool
open Lib Lib.Prog List

/-! ## The invariant -/

def State.InPool (s : State) (t : MempoolTransaction) : Prop :=
  ∃ id, s.transactionsPool.allTransactions.lookup id = some t

def State.PoolCreates (s : State) (o : DomainOutpoint) : Prop :=
  ∃ t, s.transactionsPool.allTransactions.lookup o.transactionID = some t ∧
    o.index < t.transaction.content.outputs.length

/-- The index maps an outpoint to a transaction exactly when that transaction is in the pool and
spends the outpoint. -/
def State.IndexExact (s : State) : Prop :=
  ∀ o t, s.mempoolUTXOSet.transactionByPreviousOutpoint.lookup o = some t ↔ s.InPool t ∧ o ∈ t.outpoints

def IndexWrite.Clean (write : IndexWrite) : Prop :=
  ∀ o ∈ write.transaction.outpoints, ∀ t,
    write.before.mempoolUTXOSet.transactionByPreviousOutpoint.lookup o = some t → t.id = write.transaction.id

instance (write : IndexWrite) : Decidable write.Clean :=
  decidable_of_iff (∀ o ∈ write.transaction.outpoints,
    ∀ t ∈ write.before.mempoolUTXOSet.transactionByPreviousOutpoint.lookup o, t.id = write.transaction.id) Iff.rfl

/-- Each transaction spends what `spends` says for its ID, and is stored under its ID. -/
structure State.Sound (spends : DomainTransactionID → List DomainOutpoint) (s : State) : Prop where
  key : ∀ id t, s.transactionsPool.allTransactions.lookup id = some t → t.id = id
  pool : ∀ id t, s.transactionsPool.allTransactions.lookup id = some t → t.outpoints = spends t.id
  chained : ∀ id l t, s.transactionsPool.chainedTransactionsByParentID.lookup id = some l → t ∈ l →
    t.outpoints = spends t.id
  orphans : ∀ id o, s.orphansPool.allOrphans.lookup id = some o → o.transaction.content.outpoints = spends o.id
  orphansByOutpoint : ∀ p o, s.orphansPool.orphansByPreviousOutpoint.lookup p = some o →
    o.transaction.content.outpoints = spends o.id

structure World.Good (spends : DomainTransactionID → List DomainOutpoint) (w : World) : Prop where
  sound : w.state.Sound spends
  exact : (∀ write ∈ w.indexWrites, write.Clean) → w.state.IndexExact

/-! ## The two writes -/

section
variable {spends : DomainTransactionID → List DomainOutpoint} {s : State} {t : MempoolTransaction}

theorem inPool_iff (hs : s.Sound spends) {x : MempoolTransaction} :
    s.InPool x ↔ s.transactionsPool.allTransactions.lookup x.id = some x :=
  ⟨fun ⟨id, h⟩ => hs.key id x h ▸ h, fun h => ⟨x.id, h⟩⟩

theorem registered_sound (hs : s.Sound spends) (ht : t.outpoints = spends t.id) : (s.registered t).Sound spends where
  key id x h := by
    obtain ⟨rfl, rfl⟩ | h := of_lookup_registered h
    · rfl
    · exact hs.key id x h
  pool id x h := by
    obtain ⟨-, rfl⟩ | h := of_lookup_registered h
    · exact ht
    · exact hs.pool id x h
  chained id l x h hx := by
    obtain ⟨rfl, -⟩ | ⟨l', hl', hx'⟩ := mem_register_chained _ _ _ h hx
    · exact ht
    · exact hs.chained id l' x hl' hx'
  orphans := hs.orphans
  orphansByOutpoint := hs.orphansByOutpoint

theorem unregistered_sound (S : Setup) (hs : s.Sound spends) : (s.unregistered S t).Sound spends where
  key id x h := hs.key id x (of_lookup_unregistered h).2
  pool id x h := hs.pool id x (of_lookup_unregistered h).2
  chained id l x h hx := hs.chained id l x (removeTransaction_chained S _ _ t h) hx
  orphans := hs.orphans
  orphansByOutpoint := hs.orphansByOutpoint

theorem exact_iff_clean {s' : State} {new : Option MempoolTransaction} (hs : s.Sound spends)
    (hs' : s'.Sound spends) (ht : t.outpoints = spends t.id) (hnew : ∀ x, new = some x → x = t)
    (hall : ∀ id, s'.transactionsPool.allTransactions.lookup id =
      if id = t.id then new else s.transactionsPool.allTransactions.lookup id)
    (hindex : ∀ o, s'.mempoolUTXOSet.transactionByPreviousOutpoint.lookup o =
      if o ∈ t.outpoints then new else s.mempoolUTXOSet.transactionByPreviousOutpoint.lookup o)
    (he : s.IndexExact) : s'.IndexExact ↔ (IndexWrite.mk t s).Clean := by
  constructor
  · intro he' o ho x hx
    by_contra hid
    obtain ⟨hin, hox⟩ := (he o x).mp hx
    have hin' : s'.InPool x := ⟨x.id, by rw [hall, if_neg hid, (inPool_iff hs).mp hin]⟩
    have hx' := (he' o x).mpr ⟨hin', hox⟩
    rw [hindex, if_pos ho] at hx'
    exact hid (congrArg MempoolTransaction.id (hnew x hx'))
  intro hc o x
  rw [inPool_iff hs', hall, hindex]
  by_cases hid : x.id = t.id
  · rw [if_pos hid]
    by_cases ho : o ∈ t.outpoints
    · rw [if_pos ho]
      exact ⟨fun h => ⟨h, hnew x h ▸ ho⟩, And.left⟩
    -- An object that had the same ID before spends the same outpoints.
    rw [if_neg ho]
    constructor
    · intro h
      obtain ⟨hx, hox⟩ := (he o x).mp h
      have hx' := hs.pool _ x ((inPool_iff hs).mp hx)
      rw [hx', hid, ← ht] at hox
      exact absurd hox ho
    · rintro ⟨h, hox⟩
      exact absurd (hnew x h ▸ hox) ho
  · rw [if_neg hid]
    by_cases ho : o ∈ t.outpoints
    · rw [if_pos ho]
      constructor
      · intro h
        exact absurd (congrArg MempoolTransaction.id (hnew x h)) hid
      rintro ⟨h, hox⟩
      exact absurd (hc o ho x ((he o x).mpr ⟨(inPool_iff hs).mpr h, hox⟩)) hid
    · rw [if_neg ho, he o x, inPool_iff hs]

theorem registered_exact_iff (hs : s.Sound spends) (ht : t.outpoints = spends t.id)
    (he : s.IndexExact) : (s.registered t).IndexExact ↔ (IndexWrite.mk t s).Clean :=
  exact_iff_clean hs (registered_sound hs ht) ht (fun _ h => (Option.some.inj h).symm)
    (lookup_registered s t) (lookup_addTransaction _ t) he

theorem unregistered_exact_iff (S : Setup) (hs : s.Sound spends) (ht : t.outpoints = spends t.id)
    (he : s.IndexExact) : (s.unregistered S t).IndexExact ↔ (IndexWrite.mk t s).Clean :=
  exact_iff_clean hs (unregistered_sound S hs) ht (by simp) (lookup_unregistered S) (lookup_removeInputs _ _ 0 _ _) he

end

/-! ## Every operation keeps the invariant -/

section
variable {spends : DomainTransactionID → List DomainOutpoint} {S : Setup}

theorem removable_good : Removable S (fun tx => tx.outpoints = spends tx.id) (fun _ => True) (World.Good spends) where
  frame {w w'} hw hf :=
    { sound :=
        { key := by rw [hf.all]; exact hw.sound.key
          pool := by rw [hf.all]; exact hw.sound.pool
          chained := by rw [hf.chained]; exact hw.sound.chained
          orphans := fun id o h => hw.sound.orphans id o (hf.orphans.within.1 id o h)
          orphansByOutpoint := fun p o h =>
            hw.sound.orphansByOutpoint p o (hf.orphans.within.2 p o h) }
      exact := by
        intro hclean o t
        unfold State.InPool
        rw [hf.all, hf.index]
        exact hw.exact (hf.writes ▸ hclean) o t }
  pool hw h := ⟨hw.sound.pool _ _ h, hw.sound.key _ _ h⟩
  chained hw h ht := hw.sound.chained _ _ _ h ht
  leave hw ht :=
    { sound := unregistered_sound S hw.sound
      exact := fun hclean => (unregistered_exact_iff S hw.sound ht (hw.exact fun write hwrite =>
        hclean write (mem_cons_of_mem _ hwrite))).mpr (hclean _ mem_cons_self) }
  clear hw _ _ _ := ⟨{ hw.sound with }, hw.exact⟩

theorem sound_insertOrphan {s : State} (hs : s.Sound spends) {orphan : OrphanTransaction}
    (ho : orphan.transaction.content.outpoints = spends orphan.id) :
    State.Sound spends { s with orphansPool := s.orphansPool.insertOrphan orphan } := by
  refine { hs with orphans := fun id o h => ?_, orphansByOutpoint := fun p o h => ?_ }
  · obtain ⟨-, rfl⟩ | h := GoMap.of_lookup_set h
    · exact ho
    · exact hs.orphans id o h
  obtain ⟨-, rfl⟩ | h := of_lookup_insertOrphan h
  · exact ho
  · exact hs.orphansByOutpoint p o h

theorem stable_good : Stable S (fun tx => tx.outpoints = spends tx.id) True (World.Good spends) where
  toRemovable := removable_good
  heap _ hw := ⟨{ hw.sound with }, hw.exact⟩
  released hw h := hw.sound.orphansByOutpoint _ _ h
  enter hw ht _ :=
    { sound := registered_sound hw.sound ht
      exact := fun hclean => (registered_exact_iff hw.sound ht (hw.exact fun write hwrite =>
        hclean write (mem_cons_of_mem _ hwrite))).mpr (hclean _ mem_cons_self) }
  store hw ho _ := ⟨sound_insertOrphan hw.sound ho, hw.exact⟩

end

theorem good_new (spends : DomainTransactionID → List DomainOutpoint) : World.new.Good spends where
  sound := by constructor <;> intros <;> rename_i h <;> simp [World.new, State.new] at *
  exact := by
    intro _ o t
    simp [World.new, State.new, State.InPool]

theorem exists_spends {run : List (ℕ × Op)} (hids : IDsDetermineOutpoints run) :
    ∃ spends : DomainTransactionID → List DomainOutpoint,
      ∀ step ∈ run, ∀ tx ∈ step.2.submitted, tx.outpoints = spends tx.id := by
  classical
  refine ⟨fun id => if h : ∃ tx : DomainTransaction, tx.id = id ∧ ∃ step ∈ run,
    tx ∈ step.2.submitted then h.choose.outpoints else [], fun step hstep tx htx => ?_⟩
  have hex : ∃ tx' : DomainTransaction, tx'.id = tx.id ∧ ∃ step ∈ run, tx' ∈ step.2.submitted :=
    ⟨tx, rfl, step, hstep, htx⟩
  obtain ⟨hid, step', hstep', htx'⟩ := hex.choose_spec
  beta_reduce
  rw [dif_pos hex]
  exact hids step hstep tx htx step' hstep' _ htx' hid.symm

/-- In a run with clean writes the index is exact, and no two pool transactions spend one outpoint. -/
theorem index_exact_of_clean_writes (S : Setup) (run : List (ℕ × Op)) (hids : IDsDetermineOutpoints run)
    (hclean : ∀ write ∈ (runOps S run World.new).indexWrites, write.Clean) :
    (runOps S run World.new).state.IndexExact ∧
      ∀ t t' o, (runOps S run World.new).state.InPool t → (runOps S run World.new).state.InPool t' →
        o ∈ t.outpoints → o ∈ t'.outpoints → t = t' := by
  obtain ⟨spends, hspends⟩ := exists_spends hids
  have hexact := ((stable_good (S := S)).runOps run hspends (good_new spends)).exact hclean
  refine ⟨hexact, fun t t' o ht ht' ho ho' => ?_⟩
  have h := (hexact o t).mpr ⟨ht, ho⟩
  have h' := (hexact o t').mpr ⟨ht', ho'⟩
  exact Option.some.inj (h.symm.trans h')

/-! ## A run with a write that is not clean -/

/-- Consensus accepts every transaction with fee and mass 1 and knows an entry for every outpoint. -/
def sampleSetup : Setup where
  config := ⟨1000, 60, 10, 60, 10, 100000, 50, true, 1000, 0, 0⟩
  getScriptClass _ := .standard
  isUnspendable _ := false
  getPreciseSigOpCount _ _ := 0
  feeRate _ _ := 1
  surroundings _ := ⟨some 100, fun _ => 1, fun _ _ => ⟨fun _ => some ⟨5, ⟨[], 0⟩, 1, false⟩, some 1, none⟩, true, id⟩

def sampleTransaction (id : DomainTransactionID) (spent : List DomainOutpoint) : DomainTransaction :=
  ⟨0, spent.map fun o => ⟨o, [], 0, 0⟩, [⟨1, ⟨[], 0⟩⟩], 0, 0, 0, [], id⟩

def sampleSubmit (id : DomainTransactionID) (spent : List DomainOutpoint) : ℕ × Op :=
  (10, .validateAndInsertTransaction (sampleTransaction id spent) ⟨fun _ => none, 0, 0⟩ false false)

def respentRun : List (ℕ × Op) :=
  [sampleSubmit 1 [⟨100, 0⟩], sampleSubmit 2 [⟨101, 0⟩], sampleSubmit 3 [⟨1, 0⟩, ⟨2, 0⟩],
    (10, .removeTransaction 3 false), sampleSubmit 4 [⟨1, 0⟩]]

theorem respentRun_idsDetermineOutpoints : IDsDetermineOutpoints respentRun := by
  unfold IDsDetermineOutpoints
  decide

theorem index_exact_of_clean_writes_respentRun : (runOps sampleSetup respentRun World.new).state.IndexExact ∧
      ∀ t t' o, (runOps sampleSetup respentRun World.new).state.InPool t →
        (runOps sampleSetup respentRun World.new).state.InPool t' → o ∈ t.outpoints → o ∈ t'.outpoints → t = t' :=
  index_exact_of_clean_writes sampleSetup respentRun respentRun_idsDetermineOutpoints (by decide +kernel)

/-- Removing 2 also removes 3, which left the pool before: the index loses the outpoint that 4 spends. -/
theorem index_loses_live_transaction :
    ¬ (runOps sampleSetup (respentRun ++ [(10, .removeTransaction 2 true)]) World.new).state.IndexExact := by
  intro h
  have hin : (runOps sampleSetup (respentRun ++ [(10, .removeTransaction 2 true)])
      World.new).state.transactionsPool.allTransactions.lookup 4 =
        some ⟨7, ⟨6, sampleTransaction 4 [⟨1, 0⟩]⟩, false, 100⟩ := by decide +kernel
  have hindex := (h ⟨1, 0⟩ _).mpr ⟨⟨4, hin⟩, by decide⟩
  have hnone : (runOps sampleSetup (respentRun ++ [(10, .removeTransaction 2 true)])
      World.new).state.mempoolUTXOSet.transactionByPreviousOutpoint.lookup ⟨1, 0⟩ = none := by
    decide +kernel
  rw [hnone] at hindex
  cases hindex

/-! ## The two pools

`removeTransaction` looks into the orphan pool first and takes it that what it finds there is not in the
transaction pool. An orphan that is submitted again once consensus has its missing outputs is in both.
-/

/-- No transaction is in the pool and an orphan at once. -/
def State.PoolsDisjoint (s : State) : Prop :=
  ∀ id, (s.transactionsPool.allTransactions.lookup id).isSome → (s.orphansPool.allOrphans.lookup id).isNone

structure State.Apart (s : State) : Prop where
  key : ∀ {id t}, s.transactionsPool.allTransactions.lookup id = some t → t.id = id
  apart : ∀ {id t}, s.transactionsPool.allTransactions.lookup id = some t → s.orphansPool.allOrphans.lookup id = none

variable {s : State}

theorem State.Apart.poolsDisjoint (hs : s.Apart) : s.PoolsDisjoint := by
  intro id hin
  obtain ⟨t, ht⟩ := Option.isSome_iff_exists.mp hin
  rw [hs.apart ht]
  rfl

theorem apart_new : State.new.Apart := by
  constructor <;> intros <;> simp_all [State.new]

theorem State.Apart.shrink {s' : State} (hs : s.Apart)
    (hall : ∀ id t, s'.transactionsPool.allTransactions.lookup id = some t →
      s.transactionsPool.allTransactions.lookup id = some t)
    (horphans : ∀ id o, s'.orphansPool.allOrphans.lookup id = some o →
      s.orphansPool.allOrphans.lookup id = some o) : s'.Apart where
  key h := hs.key (hall _ _ h)
  apart {id t} h := by
    refine Option.eq_none_iff_forall_ne_some.mpr fun o ho => ?_
    have hnone := hs.apart (hall id t h)
    rw [horphans id o ho] at hnone
    cases hnone

theorem apart_registered_iff (hs : s.Apart) (t : MempoolTransaction) :
    (s.registered t).Apart ↔ s.orphansPool.allOrphans.lookup t.id = none := by
  constructor
  · intro h
    have hin : (s.registered t).transactionsPool.allTransactions.lookup t.id = some t := by
      rw [lookup_registered, if_pos rfl]
    exact h.apart hin
  intro hnone
  constructor
  · intro id x hx
    obtain ⟨rfl, rfl⟩ | hx := of_lookup_registered hx
    · rfl
    · exact hs.key hx
  intro id x hx
  obtain ⟨rfl, -⟩ | hx := of_lookup_registered hx
  · exact hnone
  · exact hs.apart hx

theorem apart_insertOrphan (hs : s.Apart) {orphan : OrphanTransaction}
    (hnone : s.transactionsPool.allTransactions.lookup orphan.id = none) :
    State.Apart { s with orphansPool := s.orphansPool.insertOrphan orphan } where
  key := hs.key
  apart {id t} h := by
    change (s.orphansPool.allOrphans.insert orphan.id orphan).lookup id = none
    rw [GoMap.lookup_set]
    by_cases hid : id = orphan.id
    · rw [hid, hnone] at h
      cases h
    · rw [if_neg hid]
      exact hs.apart h

variable (S : Setup)

theorem removable_apart : Removable S (fun _ => True) (fun _ => True) fun w => w.state.Apart where
  frame hw hf := hw.shrink (fun _ _ h => hf.all ▸ h) hf.orphans.within.1
  pool hw h := ⟨trivial, hw.key h⟩
  chained _ _ _ := trivial
  leave hw _ := hw.shrink (fun _ _ h => (of_lookup_unregistered h).2) fun _ _ h => h
  clear hw _ _ _ := ⟨hw.key, hw.apart⟩

theorem stable_apart : Stable S (fun _ => True) False fun w => w.state.Apart where
  toRemovable := removable_apart S
  heap _ hw := ⟨hw.key, hw.apart⟩
  released _ _ := trivial
  enter hw _ hnone := (apart_registered_iff hw _).mpr (hnone.resolve_right id)
  store hw _ hnone := apart_insertOrphan hw hnone

/-- No call of the run submits a transaction that is an orphan then. -/
def NoOrphanResubmitted (S : Setup) : List (ℕ × Op) → World → Prop
  | [], _ => True
  | step :: run, w =>
    (∀ tx ∈ step.2.submitted, w.state.orphansPool.allOrphans.lookup tx.id = none) ∧
      NoOrphanResubmitted S run (exec (step.2.call S step.1) w).2

theorem apart_runOps (run : List (ℕ × Op)) {w : World} (hw : w.state.Apart)
    (h : NoOrphanResubmitted S run w) : (runOps S run w).state.Apart := by
  induction run generalizing w with
  | nil => exact hw
  | cons step run ih =>
    exact ih ((stable_apart S).call step.1 hw (fun _ _ => trivial) fun tx htx => .inl (h.1 tx htx)) h.2

/-- The pools are disjoint in every state of a run that submits no orphan again. -/
theorem poolsDisjoint_of_noOrphanResubmitted (S : Setup) (run : List (ℕ × Op))
    (h : NoOrphanResubmitted S run World.new) : (runOps S run World.new).state.PoolsDisjoint ∧
      ∀ t, ((runOps S run World.new).state.registered t).PoolsDisjoint ↔
        (runOps S run World.new).state.orphansPool.allOrphans.lookup t.id = none := by
  have hs := apart_runOps S run apart_new h
  refine ⟨hs.poolsDisjoint, fun t => ⟨fun hdisjoint => ?_, fun hnone => ?_⟩⟩
  · have hnone := hdisjoint t.id (by rw [lookup_registered, if_pos rfl]; rfl)
    exact Option.isNone_iff_eq_none.mp hnone
  · exact ((apart_registered_iff hs t).mpr hnone).poolsDisjoint

def lateParentSetup : Setup :=
  { sampleSetup with
    surroundings := fun n => ⟨some 100, fun _ => 1, fun tx _ =>
      if n < 20 ∧ (⟨100, 0⟩ : DomainOutpoint) ∈ tx.outpoints then
        ⟨fun _ => none, none, some (.missingTxOut [⟨100, 0⟩])⟩
      else ⟨fun _ => some ⟨5, ⟨[], 0⟩, 1, false⟩, some 1, none⟩, true, id⟩ }

def submitOrphan (id : DomainTransactionID) (spent : List DomainOutpoint) : ℕ × Op :=
  (10, .validateAndInsertTransaction (sampleTransaction id spent) ⟨fun _ => none, 0, 0⟩ false true)

theorem poolsDisjoint_of_noOrphanResubmitted_orphan :
    (runOps lateParentSetup [submitOrphan 1 [⟨100, 0⟩], submitOrphan 2 [⟨101, 0⟩]] World.new).state.PoolsDisjoint ∧
      ∀ t, ((runOps lateParentSetup [submitOrphan 1 [⟨100, 0⟩], submitOrphan 2 [⟨101, 0⟩]]
          World.new).state.registered t).PoolsDisjoint ↔
        (runOps lateParentSetup [submitOrphan 1 [⟨100, 0⟩], submitOrphan 2 [⟨101, 0⟩]]
          World.new).state.orphansPool.allOrphans.lookup t.id = none :=
  poolsDisjoint_of_noOrphanResubmitted lateParentSetup _ ⟨by decide +kernel, by decide +kernel, trivial⟩

/-- Transaction 1 becomes an orphan, and is submitted again after its parent came with a block as a coinbase. -/
theorem resubmitted_orphan_in_both_pools : ¬ (runOps lateParentSetup ([submitOrphan 1 [⟨100, 0⟩]] ++
      List.replicate 5 (10, .handleNewBlockTransactions [sampleTransaction 100 []]) ++
      [submitOrphan 1 [⟨100, 0⟩]]) World.new).state.PoolsDisjoint := by
  intro h
  have hnone := h 1 (by decide +kernel)
  revert hnone
  decide +kernel

end Kaspad.Mempool
