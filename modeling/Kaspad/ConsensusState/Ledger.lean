import Kaspad.ConsensusState.PastUTXO

/-! # The accepted transactions as a ledger

A block accepts transactions one after another, and each changes the UTXO set. No transaction is
accepted twice: its inputs are gone and no later transaction brings them back, since they are outputs of
accepted transactions.
-/

namespace Kaspad.ConsensusState
open Lib Function Ghostdag TransactionValidator List

variable {Digest Multiset : Type} {m : UTXOManager Digest Multiset} {v : BlockValidator}

/-! ## Stored blocks -/

def Stored (m : UTXOManager Digest Multiset) (tx : DomainTransaction) : Prop :=
  ∃ h block, m.blocks.lookup h = some block ∧ tx ∈ block.transactions

def Created (m : UTXOManager Digest Multiset) (o : DomainOutpoint) (e : UTXOEntry) : Prop :=
  ∃ tx, Stored m tx ∧ (o, e) ∈ outputEntries tx (isCoinBase tx) e.blockDAAScore

structure SameContent (tx tx' : DomainTransaction) : Prop where
  outpoints : tx.outpoints = tx'.outpoints
  outputs : tx.outputs = tx'.outputs
  subnetworkID : tx.subnetworkID = tx'.subnetworkID
  payload : tx.payload = tx'.payload

/-- The stored blocks have passed validation, ids and hashes do not collide, and numbers are within their types. -/
structure SoundStore (m : UTXOManager Digest Multiset) (v : BlockValidator) : Prop where
  bodies : ∀ h block, m.blocks.lookup h = some block → v.validateBodyInIsolation block = .ok ()
  ids : ∀ tx tx', Stored m tx → Stored m tx' → tx.id = tx'.id → SameContent tx tx'
  digests : ∀ tx tx', Stored m tx → m.transactionHash tx = m.transactionHash tx' →
    tx.outputs = tx'.outputs ∧ tx.payload = tx'.payload
  id : ∀ tx, Stored m tx → tx.id < 2 ^ 256
  outputs : ∀ tx, Stored m tx → tx.outputs.length ≤ 2 ^ 32
  scripts : ∀ tx, Stored m tx → ∀ output ∈ tx.outputs,
    output.scriptPublicKey.version < 2 ^ 16 ∧ output.scriptPublicKey.script.length < 2 ^ 64
  daaScore : ∀ h daaScore, m.daaScore.lookup h = some daaScore → daaScore < 2 ^ 64

section
variable (hm : SoundStore m v)
include hm

theorem SoundStore.validBody {h : DomainHash} {block : DomainBlock} (hblock : m.blocks.lookup h = some block) :
    BlockValidator.ValidBody block.transactions :=
  v.validBody (hm.bodies h block hblock)

theorem SoundStore.isolation {tx : DomainTransaction} (htx : Stored m tx) : PassedIsolation tx := by
  obtain ⟨h, block, hblock, hmem⟩ := htx
  exact (hm.validBody hblock).isolation tx hmem

theorem SoundStore.daaScoreDetermines : DAAScoreDetermines (Created m) := by
  rintro o e e' ⟨tx, htx, hmem⟩ ⟨tx', htx', hmem'⟩ hscore
  obtain ⟨hid, hcoinbase, -, i, output, hi, hindex, hamount, hscript⟩ := mem_outputEntries hmem
  obtain ⟨hid', hcoinbase', -, j, output', hj, hindex', hamount', hscript'⟩ := mem_outputEntries hmem'
  have hsame := hm.ids tx tx' htx htx' (hid.symm.trans hid')
  obtain ⟨hilt, -⟩ := List.getElem?_eq_some_iff.mp hi
  obtain ⟨hjlt, -⟩ := List.getElem?_eq_some_iff.mp hj
  have hij := hindex.symm.trans hindex'
  rw [Nat.mod_eq_of_lt (hilt.trans_le (hm.outputs tx htx)),
    Nat.mod_eq_of_lt (hjlt.trans_le (hm.outputs tx' htx'))] at hij
  subst hij
  rw [hsame.outputs, hj] at hi
  cases hi
  obtain ⟨amount, script, score, coinbase⟩ := e
  obtain ⟨amount', script', score', coinbase'⟩ := e'
  simp only [isCoinBase, hsame.subnetworkID] at hcoinbase
  simp only [isCoinBase] at hcoinbase'
  simp only at hscore hamount hamount' hscript hscript'
  simp [hscore, hamount, hamount', hscript, hscript', hcoinbase, hcoinbase']

end

/-! ## The ledger -/

theorem exists_mem_zip_left {α β : Type} {l : List α} {l' : List β} (hlen : l.length = l'.length) {a : α}
    (ha : a ∈ l) : ∃ b, (a, b) ∈ l.zip l' := by
  obtain ⟨i, hi, rfl⟩ := getElem_of_mem ha
  have hi' := hlen ▸ hi
  exact ⟨l'[i], mem_iff_getElem.mpr ⟨i, by simp [hi, hi'], by simp⟩⟩

theorem exists_mem_zip_right {α β : Type} {l : List α} {l' : List β} (hlen : l.length = l'.length) {b : β}
    (hb : b ∈ l') : ∃ a, (a, b) ∈ l.zip l' := by
  obtain ⟨i, hi, rfl⟩ := getElem_of_mem hb
  have hi' := hlen ▸ hi
  exact ⟨l[i], mem_iff_getElem.mpr ⟨i, by simp [hi, hi'], by simp⟩⟩

structure Ledger (m : UTXOManager Digest Multiset) (accepted : List DomainTransaction) (S : UTXOSet) : Prop where
  finite : FinitelyMany S
  stored : ∀ tx ∈ accepted, Stored m tx
  created : ∀ o e, S o = some e → ∃ tx ∈ accepted, (o, e) ∈ outputEntries tx (isCoinBase tx) e.blockDAAScore
  spent : ∀ tx ∈ accepted, ∀ o ∈ tx.outpoints, S o = none ∧ ∃ tx' ∈ accepted, tx'.id = o.transactionID

theorem ledger_empty : Ledger m [] fun _ => none :=
  ⟨finitelyMany_none, by simp, by simp, by simp⟩

theorem Ledger.within {accepted : List DomainTransaction} {S : UTXOSet} (h : Ledger m accepted S) :
    S.Within (Created m) := by
  intro o e ho
  obtain ⟨tx, htx, hmem⟩ := h.created o e ho
  exact ⟨tx, h.stored tx htx, hmem⟩

structure Executable (m : UTXOManager Digest Multiset) (accepted : List DomainTransaction) (S : UTXOSet)
    (tx : DomainTransaction) (entries : List UTXOEntry) : Prop where
  stored : Stored m tx
  length : tx.outpoints.length = entries.length
  unspent : ∀ input ∈ tx.outpoints.zip entries, S input.1 = some input.2
  new : ∀ tx' ∈ accepted, tx'.id ≠ tx.id

section
variable (hm : SoundStore m v) {accepted : List DomainTransaction} {S : UTXOSet} {tx : DomainTransaction}
  {entries : List UTXOEntry} (h : Ledger m accepted S) (hexec : Executable m accepted S tx entries)

include h hexec

theorem Executable.outputs_free {isCoinbase : Bool} {daaScore : ℕ} :
    ∀ output ∈ outputEntries tx isCoinbase daaScore, S output.1 = none := by
  intro output houtput
  cases ho : S output.1 with
  | none => rfl
  | some e =>
    obtain ⟨tx', htx', hmem⟩ := h.created output.1 e ho
    exact absurd ((mem_outputEntries hmem).1.symm.trans (mem_outputEntries houtput).1) (hexec.new tx' htx')

omit h in
theorem Executable.mem_unspent {o : DomainOutpoint} (ho : o ∈ tx.outpoints) : ∃ e, S o = some e := by
  obtain ⟨e, he⟩ := exists_mem_zip_left hexec.length ho
  exact ⟨e, hexec.unspent _ he⟩

include hm

theorem Executable.addTransaction_isDiff {V : UTXOSet} {d : MutableUTXODiff} (hV : V.Within (Created m))
    (hd : d.IsDiff V S) (daaScore : ℕ) :
    ∃ d', d.addTransaction tx entries daaScore = .ok d' ∧ d'.IsDiff V (S.execute tx daaScore) := by
  refine MutableUTXODiff.addTransaction_isDiff hm.daaScoreDetermines hV h.within hd hexec.length
    (hm.isolation hexec.stored).distinct hexec.unspent (hm.outputs tx hexec.stored) (fun output houtput => ?_)
    (hexec.outputs_free h)
  have hscore := (mem_outputEntries houtput).2.2.1
  exact ⟨tx, hexec.stored, by rwa [hscore]⟩

theorem Executable.total {M : Type} [AddCommMonoid M] (weight : DomainOutpoint → UTXOEntry → M) (daaScore : ℕ) :
    Lib.total weight (S.execute tx daaScore) + ((tx.outpoints.zip entries).map fun kv => weight kv.1 kv.2).sum =
      Lib.total weight S + ((outputEntries tx (isCoinBase tx) daaScore).map fun kv => weight kv.1 kv.2).sum :=
  UTXOSet.total_execute h.finite hexec.length (hm.isolation hexec.stored).distinct hexec.unspent
    (hm.outputs tx hexec.stored) (hexec.outputs_free h)

theorem Executable.ledger (daaScore : ℕ) : Ledger m (accepted ++ [tx]) (S.execute tx daaScore) := by
  have hnodup : ((outputEntries tx (isCoinBase tx) daaScore).map Prod.fst).Nodup :=
    nodup_outputEntries (hm.outputs tx hexec.stored)
  refine ⟨(h.finite.clearAll _).setAll _, fun tx' htx' => ?_, fun o e ho => ?_, fun tx' htx' o ho => ?_⟩
  · rcases mem_append.mp htx' with htx' | htx'
    · exact h.stored tx' htx'
    · exact mem_singleton.mp htx' ▸ hexec.stored
  · by_cases hmem : o ∈ (outputEntries tx (isCoinBase tx) daaScore).map Prod.fst
    · obtain ⟨⟨o', e'⟩, hout, rfl⟩ := mem_map.mp hmem
      rw [UTXOSet.execute, setAll_of_mem hnodup hout] at ho
      cases ho
      rw [(mem_outputEntries hout).2.2.1]
      exact ⟨tx, by simp, hout⟩
    · rw [UTXOSet.execute, setAll_of_notMem hmem, clearAll_apply] at ho
      split_ifs at ho
      obtain ⟨tx', htx', hout⟩ := h.created o e ho
      exact ⟨tx', by simp [htx'], hout⟩
  -- Spent outpoints are outputs of accepted transactions, and the outputs of `tx` are not.
  have hcleared : clearAll S tx.outpoints o = none ∧ ∃ other ∈ accepted, other.id = o.transactionID := by
    rcases mem_append.mp htx' with htx' | htx'
    · obtain ⟨hnone, hother⟩ := h.spent tx' htx' o ho
      exact ⟨by rw [clearAll_apply, hnone, ite_self], hother⟩
    obtain rfl := mem_singleton.mp htx'
    obtain ⟨e, he⟩ := hexec.mem_unspent ho
    obtain ⟨other, hother, hout⟩ := h.created o e he
    exact ⟨by rw [clearAll_apply, if_pos ho], other, hother, (mem_outputEntries hout).1.symm⟩
  obtain ⟨hnone, other, hother, hid⟩ := hcleared
  refine ⟨?_, other, by simp [hother], hid⟩
  rw [UTXOSet.execute, setAll_of_notMem fun hmem => ?_, hnone]
  obtain ⟨⟨o', e'⟩, hout, rfl⟩ := mem_map.mp hmem
  exact hexec.new other hother (hid.trans (mem_outputEntries hout).1)

omit hexec in
theorem Ledger.new_of_unspent (htx : Stored m tx) (hcoinbase : isCoinBase tx = false)
    (hunspent : ∀ o ∈ tx.outpoints, ∃ e, S o = some e) : ∀ tx' ∈ accepted, tx'.id ≠ tx.id := by
  intro tx' htx' hid
  have hsame := hm.ids tx' tx (h.stored tx' htx') htx hid
  obtain ⟨input, hinput⟩ := exists_mem_of_ne_nil _ ((hm.isolation htx).inputs hcoinbase)
  have ho : input.previousOutpoint ∈ tx.outpoints := mem_map_of_mem hinput
  obtain ⟨e, he⟩ := hunspent _ ho
  have hnone := (h.spent tx' htx' _ (hsame.outpoints ▸ ho)).1
  rw [hnone] at he
  cases he

end

inductive Run (m : UTXOManager Digest Multiset) (daaScore : ℕ) :
    List DomainTransaction → UTXOSet → List TransactionAcceptanceData → List DomainTransaction → UTXOSet → Prop
  | nil {accepted : List DomainTransaction} {S : UTXOSet} : Run m daaScore accepted S [] accepted S
  | skip {accepted accepted' : List DomainTransaction} {S S' : UTXOSet} {acceptance : TransactionAcceptanceData}
      {acceptances : List TransactionAcceptanceData} :
      acceptance.isAccepted = false → Run m daaScore accepted S acceptances accepted' S' →
      Run m daaScore accepted S (acceptance :: acceptances) accepted' S'
  | accept {accepted accepted' : List DomainTransaction} {S S' : UTXOSet} {tx : DomainTransaction} {fee : ℕ}
      {entries : List UTXOEntry} {acceptances : List TransactionAcceptanceData} :
      Ledger m accepted S → Executable m accepted S tx entries →
      entryTotal entries + (if isCoinBase tx then outputTotal tx.outputs else 0) = outputTotal tx.outputs + fee →
      Run m daaScore (accepted ++ [tx]) (S.execute tx daaScore) acceptances accepted' S' →
      Run m daaScore accepted S (⟨tx, fee, true, entries⟩ :: acceptances) accepted' S'

inductive RunBlocks (m : UTXOManager Digest Multiset) (daaScore : ℕ) :
    List DomainTransaction → UTXOSet → AcceptanceData → List DomainTransaction → UTXOSet → Prop
  | nil {accepted : List DomainTransaction} {S : UTXOSet} : RunBlocks m daaScore accepted S [] accepted S
  | block {accepted accepted₁ accepted' : List DomainTransaction} {S S₁ S' : UTXOSet} {block : BlockAcceptanceData}
      {blocks : AcceptanceData} :
      Run m daaScore accepted S block.transactionAcceptanceData accepted₁ S₁ →
      RunBlocks m daaScore accepted₁ S₁ blocks accepted' S' →
      RunBlocks m daaScore accepted S (block :: blocks) accepted' S'

/-! ## The code runs the ledger -/

section
variable {V : UTXOSet} {d : MutableUTXODiff} {S : UTXOSet}

theorem inputUTXOEntry_eq (d : MutableUTXODiff) (V : UTXOSet) (o : DomainOutpoint) :
    inputUTXOEntry V (some d) none o = d.applyTo V o := by
  unfold inputUTXOEntry MutableUTXODiff.applyTo
  cases hadd : d.toAdd.get o <;> simp [hadd]

theorem populateInputs_spec (hd : d.applyTo V = S) (inputs : List DomainTransactionInput) :
    (populateInputs V (some d) (inputs.map fun input => (input, none))).1 = [] →
      (inputs.map (·.previousOutpoint)).length =
          (populateInputs V (some d) (inputs.map fun input => (input, none))).2.length ∧
        ∀ input ∈ (inputs.map (·.previousOutpoint)).zip
          (populateInputs V (some d) (inputs.map fun input => (input, none))).2, S input.1 = some input.2 := by
  induction inputs with
  | nil => simp [populateInputs]
  | cons input inputs ih =>
    simp only [map_cons, populateInputs, inputUTXOEntry_eq, hd]
    cases hentry : S input.previousOutpoint with
    | none => simp
    | some e =>
      intro hmissing
      obtain ⟨hlen, hmem⟩ := ih hmissing
      exact ⟨by simpa using hlen, forall_mem_cons.mpr ⟨hentry, hmem⟩⟩

theorem populate_spec (hd : d.applyTo V = S) {tx : DomainTransaction} {entries : List UTXOEntry}
    (h : populateTransactionWithUTXOEntriesFromVirtualOrDiff V (some d) (unpopulated tx) = .ok entries) :
    tx.outpoints.length = entries.length ∧ ∀ input ∈ tx.outpoints.zip entries, S input.1 = some input.2 := by
  simp only [populateTransactionWithUTXOEntriesFromVirtualOrDiff] at h
  split_ifs at h with hmissing
  cases h
  exact populateInputs_spec hd tx.inputs (not_not.mp hmissing)

end

variable (hm : SoundStore m v) {V : UTXOSet} (hV : V.Within (Created m)) (isSelectedParent : Bool) (daaScore : ℕ)
include hm

variable {accepted : List DomainTransaction} {S : UTXOSet} (h : Ledger m accepted S)
include h in
theorem Ledger.amount_lt {o : DomainOutpoint} {e : UTXOEntry} (ho : S o = some e) : e.amount < 2 ^ 64 := by
  obtain ⟨tx, htx, hmem⟩ := h.created o e ho
  obtain ⟨-, -, -, i, output, hi, -, hamount, -⟩ := mem_outputEntries hmem
  have htotal := (hm.isolation (h.stored tx htx)).outputs
  have hle : output.value ≤ outputTotal tx.outputs :=
    le_sum_of_mem (mem_map_of_mem (mem_of_getElem? hi))
  have hmax : maxSompi = 2900000000000000000 := rfl
  omega

include hV

variable {d : MutableUTXODiff} (hd : d.IsDiff V S) {tx : DomainTransaction}
include h hd in
/-- A transaction is left out, or executed with inputs that balance its outputs and its fee. -/
theorem maybeAcceptTransaction_run (htx : Stored m tx)
    (hnew : isCoinBase tx = true → isSelectedParent = true → ∀ tx' ∈ accepted, tx'.id ≠ tx.id) :
    ∃ acceptance d', maybeAcceptTransaction m V isSelectedParent daaScore tx d = .ok (acceptance, d') ∧
      acceptance.transaction = tx ∧ ((acceptance.isAccepted = false ∧ d' = d) ∨
        ∃ fee entries, acceptance = ⟨tx, fee, true, entries⟩ ∧ Executable m accepted S tx entries ∧
          entryTotal entries + (if isCoinBase tx then outputTotal tx.outputs else 0) = outputTotal tx.outputs + fee ∧
          (isCoinBase tx = true → isSelectedParent = true) ∧ d'.IsDiff V (S.execute tx daaScore)) := by
  unfold maybeAcceptTransaction
  cases hpopulate : populateTransactionWithUTXOEntriesFromVirtualOrDiff V (some d) (unpopulated tx) with
  | error e => exact ⟨_, d, rfl, rfl, .inl ⟨rfl, rfl⟩⟩
  | ok entries =>
    obtain ⟨hlen, hunspent⟩ := populate_spec hd.applyTo_eq hpopulate
    have hiso := hm.isolation htx
    cases hcoinbase : isCoinBase tx with
    | true =>
      cases hselected : isSelectedParent with
      | false => exact ⟨_, d, rfl, rfl, .inl ⟨rfl, rfl⟩⟩
      | true =>
        have hexec : Executable m accepted S tx entries := ⟨htx, hlen, hunspent, hnew hcoinbase hselected⟩
        have hentries : entries = [] := by
          have hnil : tx.outpoints = [] := by rw [DomainTransaction.outpoints, hiso.coinbaseInputs hcoinbase]; rfl
          rw [hnil] at hlen
          exact length_eq_zero_iff.mp hlen.symm
        obtain ⟨d', hd', hdiff⟩ := hexec.addTransaction_isDiff hm h hV hd daaScore
        refine ⟨⟨tx, 0, true, entries⟩, d', ?_, rfl, .inr ⟨0, entries, rfl, hexec, ?_, fun _ => rfl, hdiff⟩⟩
        · simp [hd', Except.mapError, pure, Except.pure]
        · simp [hentries, entryTotal]
    | false =>
      have hpresent : ∀ o ∈ tx.outpoints, ∃ e, S o = some e := by
        intro o ho
        obtain ⟨e, he⟩ := exists_mem_zip_left hlen ho
        exact ⟨e, hunspent _ he⟩
      have hexec : Executable m accepted S tx entries :=
        ⟨htx, hlen, hunspent, h.new_of_unspent hm htx hcoinbase hpresent⟩
      cases hvalidate : m.transactionValidator.validateTransactionInContextAndPopulateFee daaScore tx
          (entries.map some) with
      | error e => exact ⟨⟨tx, 0, false, []⟩, d, by simp [hvalidate, pure, Except.pure], rfl, .inl ⟨rfl, rfl⟩⟩
      | ok fee =>
        have hamount : ∀ e ∈ entries, e.amount < 2 ^ 64 := by
          intro e he
          obtain ⟨o, ho⟩ := exists_mem_zip_right hlen he
          exact h.amount_lt hm (hunspent (o, e) ho)
        have hfee := (m.transactionValidator.fee_exact hiso (by simpa [DomainTransaction.outpoints] using hlen)
          hamount hvalidate).2
        obtain ⟨d', hd', hdiff⟩ := hexec.addTransaction_isDiff hm h hV hd daaScore
        refine ⟨⟨tx, fee, true, entries⟩, d', ?_, rfl, .inr ⟨fee, entries, rfl, hexec, ?_, by simp, hdiff⟩⟩
        · simp [hvalidate, hd', Except.mapError, pure, Except.pure]
        · simpa using hfee

structure AcceptedRun (m : UTXOManager Digest Multiset) (V : UTXOSet) (isSelectedParent : Bool) (daaScore : ℕ)
    (txs accepted : List DomainTransaction) (S : UTXOSet) (acceptances : List TransactionAcceptanceData)
    (d' : MutableUTXODiff) (accepted' : List DomainTransaction) (S' : UTXOSet) : Prop where
  run : Run m daaScore accepted S acceptances accepted' S'
  ledger : Ledger m accepted' S'
  diff : d'.IsDiff V S'
  transactions : acceptances.map (·.transaction) = txs
  joined : ∀ tx ∈ accepted', tx ∈ accepted ∨ tx ∈ txs ∧ (isCoinBase tx = true → isSelectedParent = true)
  coinbases : ∀ acceptance ∈ acceptances, acceptance.isAccepted = true →
    isCoinBase acceptance.transaction = true → isSelectedParent = true

variable {txs : List DomainTransaction}
include h hd

theorem acceptTransactions_cons (htx : Stored m tx)
    (hnew : isCoinBase tx = true → isSelectedParent = true → ∀ tx' ∈ accepted, tx'.id ≠ tx.id)
    (hrest : ∀ accepted₁ S₁ d₁, Ledger m accepted₁ S₁ → d₁.IsDiff V S₁ → ∃ acceptances d' accepted' S',
      acceptTransactions m V isSelectedParent daaScore txs d₁ = .ok (acceptances, d') ∧
      AcceptedRun m V isSelectedParent daaScore txs accepted₁ S₁ acceptances d' accepted' S') :
    ∃ acceptances d' accepted' S',
      acceptTransactions m V isSelectedParent daaScore (tx :: txs) d = .ok (acceptances, d') ∧
        AcceptedRun m V isSelectedParent daaScore (tx :: txs) accepted S acceptances d' accepted' S' := by
  obtain ⟨acceptance, d₁, hfirst, hacceptance, hskip | hrun⟩ :=
    maybeAcceptTransaction_run hm hV isSelectedParent daaScore h hd htx hnew
  · obtain ⟨hno, rfl⟩ := hskip
    obtain ⟨acceptances, d', accepted', S', haccept, hdone⟩ := hrest accepted S d₁ h hd
    refine ⟨acceptance :: acceptances, d', accepted', S', ?_, .skip hno hdone.run, hdone.ledger, hdone.diff,
      by simp [hacceptance, hdone.transactions], fun tx' htx' => ?_,
      forall_mem_cons.mpr ⟨fun hyes => by simp [hno] at hyes, hdone.coinbases⟩⟩
    · simp [acceptTransactions, hfirst, haccept, pure, Except.pure]
    · exact (hdone.joined tx' htx').imp_right fun hin => ⟨by simp [hin.1], hin.2⟩
  obtain ⟨fee, entries, rfl, hexec, hfee, hcoinbase, hdiff⟩ := hrun
  obtain ⟨acceptances, d', accepted', S', haccept, hdone⟩ :=
    hrest (accepted ++ [tx]) (S.execute tx daaScore) d₁ (hexec.ledger hm h daaScore) hdiff
  refine ⟨_ :: acceptances, d', accepted', S', ?_, .accept h hexec hfee hdone.run, hdone.ledger, hdone.diff,
    by simp [hdone.transactions], fun tx' htx' => ?_, forall_mem_cons.mpr ⟨fun _ => hcoinbase, hdone.coinbases⟩⟩
  · simp [acceptTransactions, hfirst, haccept, pure, Except.pure]
  rcases hdone.joined tx' htx' with hin | hin
  · rcases mem_append.mp hin with hin | hin
    · exact .inl hin
    obtain rfl := mem_singleton.mp hin
    exact .inr ⟨by simp, hcoinbase⟩
  · exact .inr ⟨by simp [hin.1], hin.2⟩

theorem acceptTransactions_run (hstored : ∀ tx ∈ txs, Stored m tx)
    (hplain : ∀ tx ∈ txs, isCoinBase tx = true → isSelectedParent = false) :
    ∃ acceptances d' accepted' S', acceptTransactions m V isSelectedParent daaScore txs d = .ok (acceptances, d') ∧
      AcceptedRun m V isSelectedParent daaScore txs accepted S acceptances d' accepted' S' := by
  induction txs generalizing accepted S d with
  | nil => exact ⟨[], d, accepted, S, rfl, .nil, h, hd, rfl, fun tx htx => .inl htx, by simp⟩
  | cons tx txs ih =>
    refine acceptTransactions_cons hm hV isSelectedParent daaScore h hd (hstored tx (by simp)) (fun hcoinbase hselected => ?_)
      fun accepted₁ S₁ d₁ h₁ hd₁ => ih h₁ hd₁ (fun tx' htx' => hstored tx' (by simp [htx']))
        fun tx' htx' => hplain tx' (by simp [htx'])
    rw [hplain tx (by simp) hcoinbase] at hselected
    cases hselected

omit h hd
variable {coinbase : DomainTransaction} {blocks : List (DomainHash × DomainBlock)} {rest : List DomainTransaction}
include h hd in
theorem acceptTransactions_body (hstored : ∀ tx ∈ coinbase :: rest, Stored m tx)
    (hplain : ∀ tx ∈ rest, isCoinBase tx = false) (hnew : ∀ tx' ∈ accepted, tx'.id ≠ coinbase.id) :
    ∃ acceptances d' accepted' S',
      acceptTransactions m V isSelectedParent daaScore (coinbase :: rest) d = .ok (acceptances, d') ∧
        AcceptedRun m V isSelectedParent daaScore (coinbase :: rest) accepted S acceptances d' accepted' S' := by
  refine acceptTransactions_cons hm hV isSelectedParent daaScore h hd (hstored coinbase (by simp)) (fun _ _ => hnew)
    fun accepted₁ S₁ d₁ h₁ hd₁ => acceptTransactions_run hm hV isSelectedParent daaScore h₁ hd₁
      (fun tx htx => hstored tx (by simp [htx]))
      fun tx htx hcoinbase => ?_
  rw [hplain tx htx] at hcoinbase
  cases hcoinbase

structure AcceptedBlocks (m : UTXOManager Digest Multiset) (V : UTXOSet) (daaScore : ℕ)
    (blocks : List (DomainHash × DomainBlock)) (accepted : List DomainTransaction) (S : UTXOSet)
    (acceptanceData : AcceptanceData) (d' : MutableUTXODiff) (accepted' : List DomainTransaction)
    (S' : UTXOSet) : Prop where
  run : RunBlocks m daaScore accepted S acceptanceData accepted' S'
  ledger : Ledger m accepted' S'
  diff : d'.IsDiff V S'
  blocks : List.Forall₂ (fun (block : DomainHash × DomainBlock) (acceptance : BlockAcceptanceData) =>
    acceptance.blockHash = block.1 ∧
      acceptance.transactionAcceptanceData.map (·.transaction) = block.2.transactions) blocks acceptanceData

def NoCoinbase (block : BlockAcceptanceData) : Prop :=
  ∀ acceptance ∈ block.transactionAcceptanceData, acceptance.isAccepted = true →
    isCoinBase acceptance.transaction = false

include h hd

theorem acceptBlocks_run (hblocks : ∀ block ∈ blocks, m.blocks.lookup block.1 = some block.2) :
    ∃ acceptanceData d' accepted' S', acceptBlocks m V daaScore false blocks d = .ok (acceptanceData, d') ∧
      AcceptedBlocks m V daaScore blocks accepted S acceptanceData d' accepted' S' ∧
      (∀ block ∈ acceptanceData, NoCoinbase block) ∧ ∀ tx ∈ accepted', tx ∈ accepted ∨ isCoinBase tx = false := by
  induction blocks generalizing accepted S d with
  | nil => exact ⟨[], d, accepted, S, rfl, ⟨.nil, h, hd, .nil⟩, by simp, fun tx htx => .inl htx⟩
  | cons block blocks ih =>
    have hblock := hblocks block (by simp)
    obtain ⟨acceptances, d₁, accepted₁, S₁, haccept, hdone⟩ := acceptTransactions_run hm hV false daaScore h hd
      (fun tx htx => ⟨block.1, block.2, hblock, htx⟩) fun tx htx _ => rfl
    obtain ⟨acceptanceData, d', accepted', S', hrest, hdone', hplain, hjoined⟩ := ih hdone.ledger hdone.diff
      fun other hother => hblocks other (by simp [hother])
    refine ⟨⟨block.1, acceptances⟩ :: acceptanceData, d', accepted', S', ?_,
      ⟨.block hdone.run hdone'.run, hdone'.ledger, hdone'.diff, .cons ⟨rfl, hdone.transactions⟩ hdone'.blocks⟩,
      fun other hother => ?_, fun tx htx => ?_⟩
    · simp [acceptBlocks, haccept, hrest, pure, Except.pure]
    · rcases mem_cons.mp hother with rfl | hother
      · intro acceptance hmem hyes
        cases hcoinbase : isCoinBase acceptance.transaction with
        | false => rfl
        | true => exact absurd (hdone.coinbases acceptance hmem hyes hcoinbase) (by simp)
      · exact hplain other hother
    rcases hjoined tx htx with hin | hplain
    · refine (hdone.joined tx hin).imp_right fun hin => ?_
      cases hcoinbase : isCoinBase tx with
      | false => rfl
      | true => exact absurd (hin.2 hcoinbase) (by simp)
    · exact .inr hplain

theorem acceptBlocks_mergeSet {h₀ : DomainHash} {block₀ : DomainBlock}
    (hblocks : ∀ block ∈ (h₀, block₀) :: blocks, m.blocks.lookup block.1 = some block.2)
    (hbody : block₀.transactions = coinbase :: rest) (hplain : ∀ tx ∈ rest, isCoinBase tx = false)
    (hnew : ∀ tx' ∈ accepted, tx'.id ≠ coinbase.id) : ∃ acceptanceData d' accepted' S',
      acceptBlocks m V daaScore true ((h₀, block₀) :: blocks) d = .ok (acceptanceData, d') ∧
        AcceptedBlocks m V daaScore ((h₀, block₀) :: blocks) accepted S acceptanceData d' accepted' S' ∧
        (∀ block ∈ acceptanceData.tail, NoCoinbase block) ∧
        ∀ tx ∈ accepted', tx ∈ accepted ∨ tx = coinbase ∨ isCoinBase tx = false := by
  have hblock₀ := hblocks (h₀, block₀) (by simp)
  obtain ⟨acceptances, d₁, accepted₁, S₁, haccept, hdone⟩ :=
    acceptTransactions_body hm hV true daaScore h hd (fun tx htx => ⟨h₀, block₀, hblock₀, hbody ▸ htx⟩) hplain hnew
  obtain ⟨acceptanceData, d', accepted', S', hrest, hdone', hnone, hjoined⟩ := acceptBlocks_run hm hV daaScore
    hdone.ledger hdone.diff fun other hother => hblocks other (mem_cons_of_mem _ hother)
  refine ⟨⟨h₀, acceptances⟩ :: acceptanceData, d', accepted', S', ?_,
    ⟨.block hdone.run hdone'.run, hdone'.ledger, hdone'.diff,
      .cons ⟨rfl, hdone.transactions.trans hbody.symm⟩ hdone'.blocks⟩, hnone, fun tx htx => ?_⟩
  · simp [acceptBlocks, hbody, haccept, hrest, pure, Except.pure]
  rcases hjoined tx htx with hin | hnot
  · refine (hdone.joined tx hin).imp_right fun hin => ?_
    rcases mem_cons.mp hin.1 with heq | hin
    · exact .inl heq
    · exact .inr (hplain tx hin)
  · exact .inr (.inr hnot)

end Kaspad.ConsensusState
