import Kaspad.Lib.Meets
import Kaspad.Lib.Total
import Kaspad.UTXO.DiffSpec

/-! # Transactions in a UTXO diff

`AddTransaction` of `domain/consensus/utils/utxo/mutable_utxo_diff.go`. A transaction whose inputs are
unspent and whose outputs are new turns the difference from a base set to a UTXO set into the difference
to the set after the transaction.
-/

namespace Kaspad
open Lib Function List

/-! ## The code -/

def outputEntries (tx : DomainTransaction) (isCoinbase : Bool) (blockDAAScore : ℕ) :
    List (DomainOutpoint × UTXOEntry) :=
  tx.outputs.zipIdx.map fun (output, i) =>
    (tx.outpoint (i % 2 ^ 32), ⟨output.value, output.scriptPublicKey, blockDAAScore, isCoinbase⟩)

namespace MutableUTXODiff

def removeEntries : List (DomainOutpoint × UTXOEntry) → MutableUTXODiff → Except DiffError MutableUTXODiff
  | [], mud => .ok mud
  | (outpoint, entry) :: inputs, mud => do
    let mud ← mud.removeEntry outpoint entry
    removeEntries inputs mud

def addEntries : List (DomainOutpoint × UTXOEntry) → MutableUTXODiff → Except DiffError MutableUTXODiff
  | [], mud => .ok mud
  | (outpoint, entry) :: outputs, mud => do
    let mud ← mud.addEntry outpoint entry
    addEntries outputs mud

def addTransaction (mud : MutableUTXODiff) (tx : DomainTransaction) (utxoEntries : List UTXOEntry)
    (blockDAAScore : ℕ) : Except DiffError MutableUTXODiff := do
  let mud ← removeEntries (tx.outpoints.zip utxoEntries) mud
  addEntries (outputEntries tx (isCoinBase tx) blockDAAScore) mud

/-! ## One entry -/

variable {known : DomainOutpoint → UTXOEntry → Prop} {d : MutableUTXODiff} {V S : UTXOSet} {o : DomainOutpoint}
  {e : UTXOEntry} (h : d.IsDiff V S)

include h

theorem IsDiff.update {d' : MutableUTXODiff} {x : Option UTXOEntry}
    (hat : d'.patchAt o = Patch.diff (V o) x) (helse : ∀ o', o' ≠ o → d'.patchAt o' = d.patchAt o') :
    d'.IsDiff V (update S o x) := by
  intro o'
  by_cases heq : o' = o
  · subst heq
    rw [update_self, hat]
  · rw [update_of_ne heq, helse o' heq, h o']

theorem IsDiff.known_lookups (hV : V.Within known) (hS : S.Within known) (o : DomainOutpoint) :
    (∀ f, d.toAdd.lookup o = some f → known o f) ∧ ∀ f, d.toRemove.lookup o = some f → known o f := by
  have hpatch := h o
  refine ⟨fun f hf => hS o f ?_, fun f hf => hV o f ?_⟩
  · have hadd : (Patch.diff (V o) (S o)).add = some f := hpatch ▸ hf
    exact (Patch.of_add hadd).1
  have hremove : (Patch.diff (V o) (S o)).remove = some f := hpatch ▸ hf
  exact (Patch.of_remove hremove).1

theorem IsDiff.lookups (o : DomainOutpoint) :
    d.toAdd.lookup o = (if V o = S o then none else S o) ∧ d.toRemove.lookup o = if V o = S o then none else V o := by
  have hpatch := h o
  have hadd : d.toAdd.lookup o = (Patch.diff (V o) (S o)).add := congrArg Patch.add hpatch
  have hremove : d.toRemove.lookup o = (Patch.diff (V o) (S o)).remove := congrArg Patch.remove hpatch
  rw [hadd, hremove, Patch.diff]
  split_ifs <;> exact ⟨rfl, rfl⟩

omit h

theorem removeEntry_isDiff (hk : DAAScoreDetermines known) (h : d.IsDiff V S) (hV : V.Within known)
    (hS : S.Within known) (ho : S o = some e) : ∃ d', d.removeEntry o e = .ok d' ∧ d'.IsDiff V (update S o none) := by
  obtain ⟨hadd, hremove⟩ := h.lookups o
  rw [ho] at hadd hremove
  have hcontains := containsWithDAAScore_eq hk (h.known_lookups hV hS o).1 (hS o e ho)
  unfold removeEntry
  rw [hcontains]
  by_cases heq : V o = some e
  · -- The entry is of the base set and unchanged so far.
    rw [if_pos heq] at hadd hremove
    rw [if_neg (by simp [hadd]), if_neg (by simp [UTXOCollection.contains, hremove])]
    refine ⟨_, rfl, h.update ?_ fun o' hne => ?_⟩
    · simp [patchAt, UTXOCollection.add, hadd, heq, Patch.diff]
    · simp [patchAt, UTXOCollection.add, hne]
  rw [if_neg heq] at hadd hremove
  rw [if_pos (by simp [hadd])]
  refine ⟨_, rfl, h.update ?_ fun o' hne => ?_⟩
  · simp only [patchAt, UTXOCollection.remove, GoMap.lookup_delete, if_pos, hremove, Patch.diff]
    cases V o <;> simp
  · simp [patchAt, UTXOCollection.remove, hne]

theorem addEntry_isDiff (hk : DAAScoreDetermines known) (h : d.IsDiff V S) (hV : V.Within known)
    (hS : S.Within known) (he : known o e) (ho : S o = none) :
    ∃ d', d.addEntry o e = .ok d' ∧ d'.IsDiff V (update S o (some e)) := by
  obtain ⟨hadd, hremove⟩ := h.lookups o
  rw [ho] at hadd hremove
  have haddNone : d.toAdd.lookup o = none := by
    rw [hadd]
    split_ifs <;> rfl
  have hcontains := containsWithDAAScore_eq hk (h.known_lookups hV hS o).2 he
  have hremoved : d.toRemove.lookup o = V o := by
    rw [hremove]
    split_ifs with hnone
    · exact hnone.symm
    · rfl
  unfold addEntry
  rw [hcontains]
  by_cases heq : V o = some e
  · -- The entry comes back.
    rw [if_pos (by simp [hremoved, heq])]
    refine ⟨_, rfl, h.update ?_ fun o' hne => ?_⟩
    · simp [patchAt, UTXOCollection.remove, haddNone, heq, Patch.diff]
    · simp [patchAt, UTXOCollection.remove, hne]
  · rw [if_neg (by simp [hremoved, heq]), if_neg (by simp [UTXOCollection.contains, haddNone])]
    refine ⟨_, rfl, h.update ?_ fun o' hne => ?_⟩
    · simp [patchAt, UTXOCollection.add, hremoved, Patch.diff, heq]
    · simp [patchAt, UTXOCollection.add, hne]

end MutableUTXODiff

/-! ## Spending and creating entries in order -/

namespace UTXOSet

def spend : List (DomainOutpoint × UTXOEntry) → UTXOSet → Option UTXOSet
  | [], S => some S
  | (o, e) :: inputs, S => if S o = some e then spend inputs (update S o none) else none

def create : List (DomainOutpoint × UTXOEntry) → UTXOSet → Option UTXOSet
  | [], S => some S
  | (o, e) :: outputs, S => if S o = none then create outputs (update S o (some e)) else none

variable {S : UTXOSet}

theorem spend_eq {inputs : List (DomainOutpoint × UTXOEntry)} (hnodup : (inputs.map Prod.fst).Nodup)
    (hmem : ∀ input ∈ inputs, S input.1 = some input.2) :
    spend inputs S = some (clearAll S (inputs.map Prod.fst)) := by
  induction inputs generalizing S with
  | nil => rfl
  | cons input inputs ih =>
    obtain ⟨hnew, hnodup⟩ := nodup_cons.mp hnodup
    rw [spend, if_pos (hmem input (by simp))]
    apply ih hnodup
    intro other hother
    have hne : other.1 ≠ input.1 := fun heq => hnew (heq ▸ mem_map_of_mem hother)
    rw [update_of_ne hne, hmem other (mem_cons_of_mem _ hother)]

theorem create_eq {outputs : List (DomainOutpoint × UTXOEntry)}
    (hnodup : (outputs.map Prod.fst).Nodup) (hfree : ∀ output ∈ outputs, S output.1 = none) :
    create outputs S = some (setAll S outputs) := by
  induction outputs generalizing S with
  | nil => rfl
  | cons output outputs ih =>
    obtain ⟨hnew, hnodup⟩ := nodup_cons.mp hnodup
    rw [create, if_pos (hfree output (by simp))]
    apply ih hnodup
    intro other hother
    have hne : other.1 ≠ output.1 := fun heq => hnew (heq ▸ mem_map_of_mem hother)
    rw [update_of_ne hne, hfree other (mem_cons_of_mem _ hother)]

theorem Within.update {known : DomainOutpoint → UTXOEntry → Prop} (hS : S.Within known)
    {o : DomainOutpoint} {x : Option UTXOEntry} (hx : ∀ e, x = some e → known o e) :
    UTXOSet.Within (update S o x) known := by
  intro o' e ho'
  by_cases heq : o' = o
  · subst heq
    exact hx e (by rwa [update_self] at ho')
  · exact hS o' e (by rwa [update_of_ne heq] at ho')

end UTXOSet

namespace MutableUTXODiff
variable {known : DomainOutpoint → UTXOEntry → Prop} {d : MutableUTXODiff} {V S T : UTXOSet}
  (hk : DAAScoreDetermines known) (hV : V.Within known)
include hk hV

theorem removeEntries_isDiff {inputs : List (DomainOutpoint × UTXOEntry)} (h : d.IsDiff V S)
    (hS : S.Within known) (hspend : S.spend inputs = some T) :
    ∃ d', removeEntries inputs d = .ok d' ∧ d'.IsDiff V T ∧ T.Within known := by
  induction inputs generalizing d S with
  | nil =>
    cases hspend
    exact ⟨d, rfl, h, hS⟩
  | cons input inputs ih =>
    rw [UTXOSet.spend] at hspend
    split_ifs at hspend with hmem
    obtain ⟨d₁, hd₁, hdiff₁⟩ := removeEntry_isDiff hk h hV hS hmem
    obtain ⟨d₂, hd₂, hdiff₂⟩ := ih hdiff₁ (hS.update (by simp)) hspend
    exact ⟨d₂, by rw [removeEntries, hd₁, ok_bind, hd₂], hdiff₂⟩

theorem addEntries_isDiff {outputs : List (DomainOutpoint × UTXOEntry)} (h : d.IsDiff V S)
    (hS : S.Within known) (hknown : ∀ output ∈ outputs, known output.1 output.2)
    (hcreate : S.create outputs = some T) : ∃ d', addEntries outputs d = .ok d' ∧ d'.IsDiff V T ∧ T.Within known := by
  induction outputs generalizing d S with
  | nil =>
    cases hcreate
    exact ⟨d, rfl, h, hS⟩
  | cons output outputs ih =>
    rw [UTXOSet.create] at hcreate
    split_ifs at hcreate with hfree
    obtain ⟨houtput, hknown⟩ := forall_mem_cons.mp hknown
    obtain ⟨d₁, hd₁, hdiff₁⟩ := addEntry_isDiff hk h hV hS houtput hfree
    have hS₁ := hS.update (o := output.1) (x := some output.2) fun e he => Option.some.inj he ▸ houtput
    obtain ⟨d₂, hd₂, hdiff₂⟩ := ih hdiff₁ hS₁ hknown hcreate
    exact ⟨d₂, by rw [addEntries, hd₁, ok_bind, hd₂], hdiff₂⟩

end MutableUTXODiff

def UTXOSet.execute (S : UTXOSet) (tx : DomainTransaction) (blockDAAScore : ℕ) : UTXOSet :=
  setAll (clearAll S tx.outpoints) (outputEntries tx (isCoinBase tx) blockDAAScore)

section
variable {tx : DomainTransaction} {isCoinbase : Bool} {blockDAAScore : ℕ}

theorem mem_outputEntries {o : DomainOutpoint} {e : UTXOEntry}
    (h : (o, e) ∈ outputEntries tx isCoinbase blockDAAScore) :
    o.transactionID = tx.id ∧ e.isCoinbase = isCoinbase ∧ e.blockDAAScore = blockDAAScore ∧
      ∃ i output, tx.outputs[i]? = some output ∧ o.index = i % 2 ^ 32 ∧ e.amount = output.value ∧
        e.scriptPublicKey = output.scriptPublicKey := by
  obtain ⟨⟨output, i⟩, hmem, heq⟩ := mem_map.mp h
  cases heq
  exact ⟨rfl, rfl, rfl, i, output, mem_zipIdx_iff_getElem?.mp hmem, rfl, rfl, rfl⟩

theorem nodup_outputEntries (hcount : tx.outputs.length ≤ 2 ^ 32) :
    ((outputEntries tx isCoinbase blockDAAScore).map Prod.fst).Nodup := by
  rw [outputEntries, map_map]
  refine List.Nodup.map_on ?_ (List.Nodup.of_map Prod.snd ?_)
  · rintro ⟨output, i⟩ hi ⟨output', j⟩ hj heq
    have hi' : tx.outputs[i]? = some output := mem_zipIdx_iff_getElem?.mp hi
    have hj' := mem_zipIdx_iff_getElem?.mp hj
    obtain ⟨hilt, -⟩ := List.getElem?_eq_some_iff.mp hi'
    obtain ⟨hjlt, -⟩ := List.getElem?_eq_some_iff.mp hj'
    have hindex : i % 2 ^ 32 = j % 2 ^ 32 := congrArg DomainOutpoint.index heq
    rw [Nat.mod_eq_of_lt (hilt.trans_le hcount), Nat.mod_eq_of_lt (hjlt.trans_le hcount)] at hindex
    subst hindex
    rw [Option.some.inj (hi'.symm.trans hj')]
  · rw [zipIdx_map_snd]
    exact nodup_range'

variable {S : UTXOSet} {entries : List UTXOEntry}

theorem MutableUTXODiff.addTransaction_isDiff {known : DomainOutpoint → UTXOEntry → Prop}
    {V : UTXOSet} {d : MutableUTXODiff} (hk : DAAScoreDetermines known) (hV : V.Within known)
    (hS : S.Within known) (h : d.IsDiff V S) (hlen : tx.outpoints.length = entries.length)
    (hdistinct : tx.outpoints.Nodup) (hmem : ∀ input ∈ tx.outpoints.zip entries, S input.1 = some input.2)
    (hcount : tx.outputs.length ≤ 2 ^ 32)
    (hknown : ∀ output ∈ outputEntries tx (isCoinBase tx) blockDAAScore, known output.1 output.2)
    (hfree : ∀ output ∈ outputEntries tx (isCoinBase tx) blockDAAScore, S output.1 = none) :
    ∃ d', d.addTransaction tx entries blockDAAScore = .ok d' ∧ d'.IsDiff V (S.execute tx blockDAAScore) := by
  have hfst := map_fst_zip hlen.le
  have hspend := UTXOSet.spend_eq (hfst.symm ▸ hdistinct) hmem
  rw [hfst] at hspend
  obtain ⟨d₁, hd₁, hdiff₁, hS₁⟩ := removeEntries_isDiff hk hV h hS hspend
  have hcreate := UTXOSet.create_eq (S := clearAll S tx.outpoints) (nodup_outputEntries hcount)
    fun output houtput => by rw [clearAll_apply, hfree output houtput, ite_self]
  obtain ⟨d₂, hd₂, hdiff₂, -⟩ := addEntries_isDiff hk hV hdiff₁ hS₁ hknown hcreate
  exact ⟨d₂, by rw [addTransaction, hd₁, ok_bind, hd₂], hdiff₂⟩

theorem UTXOSet.total_execute {M : Type} [AddCommMonoid M] {weight : DomainOutpoint → UTXOEntry → M}
    (hfinite : FinitelyMany S) (hlen : tx.outpoints.length = entries.length) (hdistinct : tx.outpoints.Nodup)
    (hmem : ∀ input ∈ tx.outpoints.zip entries, S input.1 = some input.2) (hcount : tx.outputs.length ≤ 2 ^ 32)
    (hfree : ∀ output ∈ outputEntries tx (isCoinBase tx) blockDAAScore, S output.1 = none) :
    total weight (S.execute tx blockDAAScore) + ((tx.outpoints.zip entries).map fun kv => weight kv.1 kv.2).sum =
      total weight S + ((outputEntries tx (isCoinBase tx) blockDAAScore).map fun kv => weight kv.1 kv.2).sum := by
  have hfst := map_fst_zip hlen.le
  have hclear : total weight (clearAll S ((tx.outpoints.zip entries).map Prod.fst)) +
      ((tx.outpoints.zip entries).map fun kv => weight kv.1 kv.2).sum = total weight S :=
    total_clearAll hfinite (hfst.symm ▸ hdistinct) hmem
  rw [hfst] at hclear
  have hfree₁ : ∀ output ∈ outputEntries tx (isCoinBase tx) blockDAAScore, clearAll S tx.outpoints output.1 = none := by
    intro output houtput
    rw [clearAll_apply, hfree output houtput, ite_self]
  rw [execute, total_setAll (hfinite.clearAll _) (nodup_outputEntries hcount) hfree₁, ← hclear]
  exact add_right_comm _ _ _

end

/-! ## A list of transactions -/

/-- A populated transaction and the DAA score of the block that accepts it. -/
structure ScoredTransaction where
  tx : DomainTransaction
  utxoEntries : List UTXOEntry
  blockDAAScore : ℕ

namespace ScoredTransaction

def spent (t : ScoredTransaction) : List (DomainOutpoint × UTXOEntry) := t.tx.outpoints.zip t.utxoEntries

def created (t : ScoredTransaction) : List (DomainOutpoint × UTXOEntry) :=
  outputEntries t.tx (isCoinBase t.tx) t.blockDAAScore

end ScoredTransaction

def MutableUTXODiff.addTransactions : List ScoredTransaction → MutableUTXODiff → Except DiffError MutableUTXODiff
  | [], mud => .ok mud
  | t :: ts, mud => do
    let mud ← mud.addTransaction t.tx t.utxoEntries t.blockDAAScore
    addTransactions ts mud

/-- `none` when a transaction spends an entry that is not the current one or creates a present outpoint. -/
def UTXOSet.executeAll : List ScoredTransaction → UTXOSet → Option UTXOSet
  | [], S => some S
  | t :: ts, S => do
    let S ← S.spend t.spent
    let S ← S.create t.created
    executeAll ts S

namespace MutableUTXODiff

theorem addTransactions_isDiff {known : DomainOutpoint → UTXOEntry → Prop} (hk : DAAScoreDetermines known)
    {V S T : UTXOSet} (hV : V.Within known) {ts : List ScoredTransaction} {d : MutableUTXODiff}
    (h : d.IsDiff V S) (hS : S.Within known) (hknown : ∀ t ∈ ts, ∀ output ∈ t.created, known output.1 output.2)
    (hexec : S.executeAll ts = some T) : ∃ d', d.addTransactions ts = .ok d' ∧ d'.IsDiff V T := by
  induction ts generalizing d S with
  | nil =>
    cases hexec
    exact ⟨d, rfl, h⟩
  | cons t ts ih =>
    obtain ⟨S₁, hspend, hexec⟩ := Option.bind_eq_some_iff.mp hexec
    obtain ⟨S₂, hcreate, hexec⟩ := Option.bind_eq_some_iff.mp hexec
    obtain ⟨hnew, hknown⟩ := forall_mem_cons.mp hknown
    obtain ⟨d₁, hd₁, hdiff₁, hS₁⟩ := removeEntries_isDiff hk hV h hS hspend
    obtain ⟨d₂, hd₂, hdiff₂, hS₂⟩ := addEntries_isDiff hk hV hdiff₁ hS₁ hnew hcreate
    obtain ⟨d₃, hd₃, hdiff₃⟩ := ih hdiff₂ hS₂ hknown hexec
    have hadd : d.addTransaction t.tx t.utxoEntries t.blockDAAScore = .ok d₂ := by
      rw [addTransaction, ← ScoredTransaction.spent, hd₁, ok_bind, ← ScoredTransaction.created, hd₂]
    exact ⟨d₃, by rw [addTransactions, hadd, ok_bind, hd₃], hdiff₃⟩

/-- Transactions that execute on `apply(d, S)` are added to `d` without an error, and the diff leads to the set
after them. -/
theorem addTransactions_executes (S T : UTXOSet) (d : MutableUTXODiff) (ts : List ScoredTransaction)
    (hv : d.ValidOn S) (hc : d.Canonical)
    (hdaa : DAAScoreDetermines fun o e => Occurs S [d] o e ∨ ∃ t ∈ ts, (o, e) ∈ t.created)
    (hexec : (d.applyTo S).executeAll ts = some T) :
    ∃ r, d.addTransactions ts = .ok r ∧ r.ValidOn S ∧ r.Canonical ∧ r.applyTo S = T := by
  have hS : S.Within fun o e => Occurs S [d] o e ∨ ∃ t ∈ ts, (o, e) ∈ t.created :=
    fun o e h => .inl (.inl h)
  have hT := within_applyTo (d := d) hS fun o e h => .inl (.inr ⟨d, by simp, .inl h⟩)
  have hdiff := (isDiff_iff d S).mp ⟨hv, hc⟩
  obtain ⟨r, hr, hrd⟩ := addTransactions_isDiff hdaa hS hdiff hT
    (fun t ht output houtput => .inr ⟨t, ht, houtput⟩) hexec
  exact ⟨r, hr, hrd.valid_canonical.1, hrd.valid_canonical.2, hrd.applyTo_eq⟩

end MutableUTXODiff

/-! Transactions with one output, on a set with the entry of `(7, 0)`. -/

def singleEntry (amount daaScore : ℕ) : UTXOEntry := ⟨amount, ⟨[0x51], 0⟩, daaScore, false⟩

def singleOutput (id amount daaScore : ℕ) (spent : List (DomainOutpoint × UTXOEntry)) : ScoredTransaction :=
  { tx :=
      { version := 0, inputs := spent.map fun input => ⟨input.1, [], 0, 0⟩
        outputs := [⟨amount, ⟨[0x51], 0⟩⟩], lockTime := 0, subnetworkID := subnetworkIDNative, gas := 0
        payload := [], id := id }
    utxoEntries := spent.map Prod.snd
    blockDAAScore := daaScore }

def singleSet : UTXOSet := fun o => if o = ⟨7, 0⟩ then some (singleEntry 1 5) else none

/-- The second spends the output of the first. -/
def singleOutputs : List ScoredTransaction :=
  [singleOutput 8 1 9 [(⟨7, 0⟩, singleEntry 1 5)], singleOutput 9 1 10 [(⟨8, 0⟩, singleEntry 1 9)]]

theorem MutableUTXODiff.addTransactions_executes_singleSet :
    ∃ r, new.addTransactions singleOutputs = .ok r ∧ r.ValidOn singleSet ∧ r.Canonical ∧
      singleSet.executeAll singleOutputs = some (r.applyTo singleSet) := by
  obtain ⟨T, hT⟩ : ∃ T, (new.applyTo singleSet).executeAll singleOutputs = some T := ⟨_, rfl⟩
  obtain ⟨hnew, hnew'⟩ := (isDiff_new singleSet).valid_canonical
  have hknown : ∀ o e, (Occurs singleSet [new] o e ∨ ∃ t ∈ singleOutputs, (o, e) ∈ t.created) →
      e = singleEntry 1 e.blockDAAScore := by
    intro o e h
    obtain (h | ⟨d, hd, h⟩) | ⟨t, ht, h⟩ := h
    · unfold singleSet at h
      split_ifs at h
      rw [← Option.some.inj h]
      rfl
    · obtain rfl := mem_singleton.mp hd
      cases h <;> contradiction
    · obtain rfl | rfl : t = _ ∨ t = _ := by simpa [singleOutputs] using ht
      all_goals
        rw [(Prod.mk.inj (mem_singleton.mp h)).2]
        rfl
  obtain ⟨r, hr, hvalid, hcanonical, rfl⟩ := addTransactions_executes singleSet T new singleOutputs hnew hnew'
    (fun o e e' he he' hscore => by rw [hknown o e he, hknown o e' he', hscore]) hT
  exact ⟨r, hr, hvalid, hcanonical, hT⟩

/-- An outpoint that is spent and created again with another amount at the same DAA score keeps its old entry. -/
theorem MutableUTXODiff.addTransactions_loses_entry :
    (∃ d : MutableUTXODiff, d.ValidOn singleSet ∧ (d.applyTo singleSet).executeAll [] ≠ none ∧
      ∀ r, d.addTransactions [] = .ok r → ¬ r.Canonical) ∧
    new.ValidOn singleSet ∧ ∃ ts T, (new.applyTo singleSet).executeAll ts = some T ∧
      ∀ r, new.addTransactions ts = .ok r → r.applyTo singleSet ≠ T := by
  constructor
  · refine ⟨⟨AList.singleton ⟨7, 0⟩ (singleEntry 1 5), AList.singleton ⟨7, 0⟩ (singleEntry 1 5)⟩,
      ⟨?_, ?_⟩, by simp [UTXOSet.executeAll], ?_⟩
    · intro o e h
      rw [← AList.insert_empty, UTXOCollection.get, GoMap.lookup_set, AList.lookup_empty] at h
      exact h
    · intro o h
      exact .inr h
    intro r hr hcanonical
    cases hr
    exact hcanonical ⟨7, 0⟩ (singleEntry 1 5) rfl rfl
  · refine ⟨(isDiff_new singleSet).valid_canonical.1, [singleOutput 7 2 5 [(⟨7, 0⟩, singleEntry 1 5)]], _, rfl, ?_⟩
    intro r hr heq
    cases hr
    exact absurd (congrFun heq ⟨7, 0⟩) (by decide)

end Kaspad
