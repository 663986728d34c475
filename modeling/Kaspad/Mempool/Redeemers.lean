import Kaspad.Lib.Pieces
import Kaspad.Mempool.Returns

/-! # The redeemers of a pool transaction

`getRedeemers` walks over the chained transactions without remembering where it has been, so what it
returns depends on how many paths lead to a transaction. One that is returned twice is removed twice,
the second time without being in the list by fee rate.
-/

namespace Kaspad.Mempool
open Lib Lib.StackWalk List

namespace TransactionsPool

def Redeems (tp : TransactionsPool) (p x : MempoolTransaction) : Prop :=
  tp.allTransactions.lookup x.id = some x ∧ ∃ o ∈ x.outpoints, o.transactionID = p.id

def Redeemer (tp : TransactionsPool) (t x : MempoolTransaction) : Prop := Relation.TransGen tp.Redeems t x

/-- Within linearly many iterations `getRedeemers` returns every redeemer exactly once. -/
def ReturnsRedeemersOnce (tp : TransactionsPool) (t : MempoolTransaction) : Prop :=
  ∃ redeemers, tp.getRedeemers (GoMap.size tp.allTransactions + 1) t = some redeemers ∧ redeemers.Nodup ∧
    ∀ x, x ∈ redeemers ↔ tp.Redeemer t x

/-- What is chained below the transaction is a tree, of exactly its redeemers. -/
structure TreeOfRedeemers (tp : TransactionsPool) (t : MempoolTransaction) : Prop
    extends Tree tp.chained t where
  exact : ∀ x, Below tp.chained t x ↔ tp.Redeemer t x

variable {tp : TransactionsPool} {t x : MempoolTransaction}

def transactions (tp : TransactionsPool) : List MempoolTransaction := tp.allTransactions.entries.map Sigma.snd

theorem Redeemer.mem_transactions (h : tp.Redeemer t x) : x ∈ tp.transactions := by
  obtain ⟨y, -, hlookup, -⟩ := Relation.TransGen.tail'_iff.mp h
  exact mem_map.mpr ⟨⟨x.id, x⟩, (GoMap.mem_entries_iff _ _).mpr hlookup, rfl⟩

/-- Exactly if the chained transactions form a tree below the transaction. -/
theorem returnsRedeemersOnce_iff (tp : TransactionsPool) (t : MempoolTransaction) :
    tp.ReturnsRedeemersOnce t ↔ tp.TreeOfRedeemers t := by
  have hlength : tp.transactions.length = GoMap.size tp.allTransactions := length_map _
  unfold ReturnsRedeemersOnce getRedeemers
  simp only [getRedeemersLoop_eq_walk]
  constructor
  · rintro ⟨redeemers, hwalk, hnodup, hmem⟩
    refine ⟨tree_of_walk hwalk hnodup, fun x => ?_⟩
    rw [← hmem, (walk_root hwalk).2 x]
  intro htree
  have hall : ∀ x, Below tp.chained t x → x ∈ tp.transactions := fun x hx =>
    ((htree.exact x).mp hx).mem_transactions
  obtain ⟨redeemers, hwalk, hnodup⟩ := (walk_nodup_iff hall).mpr htree.toTree
  rw [hlength] at hwalk
  refine ⟨redeemers, hwalk, hnodup, fun x => ?_⟩
  rw [(walk_root hwalk).2 x, htree.exact]

end TransactionsPool

def twoOutputs (id : DomainTransactionID) (spent : List DomainOutpoint) : ℕ × Op :=
  (10, .validateAndInsertTransaction { sampleTransaction id spent with
    outputs := [⟨1, ⟨[], 0⟩⟩, ⟨1, ⟨[], 0⟩⟩] } ⟨fun _ => none, 0, 0⟩ false false)

/-- Transactions 2 and 3 spend outputs of transaction 1, and transaction 4 spends outputs of both. -/
def diamondRun : List (ℕ × Op) :=
  [twoOutputs 1 [⟨100, 0⟩], sampleSubmit 2 [⟨1, 0⟩], sampleSubmit 3 [⟨1, 1⟩], sampleSubmit 4 [⟨2, 0⟩, ⟨3, 0⟩]]

def diamondPool : TransactionsPool := (runOps sampleSetup diamondRun World.new).state.transactionsPool

/-- Transaction 4 is returned twice. -/
theorem getRedeemers_twice : ∃ t, diamondPool.allTransactions.lookup 1 = some t ∧
    (diamondPool.getRedeemers 5 t).map (·.map (·.id)) = some [2, 3, 4, 4] ∧ ¬ diamondPool.ReturnsRedeemersOnce t := by
  have hsome : (diamondPool.allTransactions.lookup 1).isSome := by decide +kernel
  have hids : ∀ t, diamondPool.allTransactions.lookup 1 = some t →
      (diamondPool.getRedeemers 5 t).map (·.map (·.id)) = some [2, 3, 4, 4] := by decide +kernel
  have hrepeated : ∀ t, diamondPool.allTransactions.lookup 1 = some t →
      ¬ ((diamondPool.getRedeemers (GoMap.size diamondPool.allTransactions + 1) t).getD []).Nodup := by
    decide +kernel
  obtain ⟨t, ht⟩ := Option.isSome_iff_exists.mp hsome
  refine ⟨t, ht, hids t ht, ?_⟩
  rintro ⟨redeemers, hreturn, hnodup, -⟩
  exact hrepeated t ht (by rwa [hreturn])

/-! ## The list by fee rate -/

section
variable {S : Setup} {V : TransactionFacts} {s : State} {t : MempoolTransaction}

/-- The branch that logs "This should never happen but sometime does". -/
def State.NotListed (S : Setup) (s : State) (t : MempoolTransaction) : Prop :=
  removeOrdered S s.heap s.transactionsPool.transactionsOrderedByFeeRate t = .error (.transactionNotFound t.id)

theorem State.Consistent.notListed_iff (hs : s.Consistent S V) (ht : s.heap.Paid V t.transaction) :
    s.NotListed S t ↔ s.transactionsPool.allTransactions.lookup t.id = none := by
  unfold State.NotListed
  cases hlookup : s.transactionsPool.allTransactions.lookup t.id with
  | none =>
    refine iff_of_true (removeOrdered_unlisted ht hs.paid_listed fun e he hid => ?_) rfl
    rw [← hid, (hs.listed e).mp he] at hlookup
    cases hlookup
  | some e =>
    have hid := hs.key hlookup
    have he := (hs.listed e).mpr (by rwa [hid])
    rw [removeOrdered_listed hs.sorted ht hs.paid_listed he hid]
    exact iff_of_false nofun nofun

theorem State.Consistent.foldl_unregistered (hs : s.Consistent S V) (removed : List MempoolTransaction)
    (hpaid : ∀ x ∈ removed, s.heap.Paid V x.transaction) :
    ∃ s', removed.foldl (State.unregistered S) s = s' ∧ s'.Consistent S V ∧ s'.heap = s.heap ∧
      ∀ id, s'.transactionsPool.allTransactions.lookup id =
        if id ∈ removed.map (·.id) then none else s.transactionsPool.allTransactions.lookup id := by
  induction removed generalizing s with
  | nil => exact ⟨s, rfl, hs, rfl, fun id => by simp⟩
  | cons x removed ih =>
    obtain ⟨s', hs', hconsistent, hheap, hlookup⟩ := ih (hs.unregistered (hpaid x (by simp))).2
      fun y hy => hpaid y (mem_cons_of_mem _ hy)
    refine ⟨s', hs', hconsistent, hheap, fun id => (hlookup id).trans ?_⟩
    rw [lookup_unregistered]
    by_cases hid : id = x.id <;> simp [hid]

end

/-- Transaction 2 spends the output of transaction 1. -/
def twoSubmitted : World :=
  (Prog.exec (validateAndInsertTransaction chainSetup 10 (sampleTransaction 2 [⟨1, 0⟩]) ⟨fun _ => none, 0, 0⟩ false true)
    oneSubmitted).2

theorem twoSubmitted_reachable : Reachable chainSetup (chainFacts (fun _ => 1) chainSpent) twoSubmitted :=
  oneSubmitted_reachable.submit [⟨2, sampleTransaction 2 [⟨1, 0⟩]⟩]
    (chain_eligible (by decide) rfl rfl (by decide) (by decide +kernel)) (by decide +kernel)

end Kaspad.Mempool
