import Kaspad.ConsensusState.UTXOValid

/-! # The multiset of a block

`calculateMultiset` follows the acceptance data, beside the UTXO diff. Both describe one ledger: the
multiset of a UTXO valid block is the sum of the bytes of the entries of its past UTXO set.
-/

namespace Kaspad.ConsensusState
open Lib Function Ghostdag Traversal TransactionValidator List

section
variable {Digest Multiset : Type} [AddCommGroup Multiset] {m : UTXOManager Digest Multiset} {v : BlockValidator}

def entryElement (m : UTXOManager Digest Multiset) (o : DomainOutpoint) (e : UTXOEntry) : Multiset :=
  m.element (serializeUTXO e o)

theorem removeFromMultiset_eq (inputs : List (DomainOutpoint × UTXOEntry)) (ms : Multiset) :
    removeFromMultiset m inputs ms = ms - (inputs.map fun kv => entryElement m kv.1 kv.2).sum := by
  induction inputs generalizing ms with
  | nil => simp [removeFromMultiset]
  | cons input inputs ih =>
    rw [removeFromMultiset, foldl_cons, ← removeFromMultiset, ih, map_cons, sum_cons, sub_sub]
    rfl

theorem addToMultiset_eq (outputs : List (DomainOutpoint × UTXOEntry)) (ms : Multiset) :
    addToMultiset m outputs ms = ms + (outputs.map fun kv => entryElement m kv.1 kv.2).sum := by
  induction outputs generalizing ms with
  | nil => simp [addToMultiset]
  | cons output outputs ih =>
    rw [addToMultiset, foldl_cons, ← addToMultiset, ih, map_cons, sum_cons, add_assoc]
    rfl

def CoinbaseFirst (i : ℕ) (acceptances : List TransactionAcceptanceData) : Prop :=
  ∀ j acceptance, acceptances[j]? = some acceptance → (i + j == 0) = isCoinBase acceptance.transaction

variable {i : ℕ} {acceptances : List TransactionAcceptanceData} {ms : Multiset}

theorem CoinbaseFirst.tail {acceptance : TransactionAcceptanceData}
    (h : CoinbaseFirst i (acceptance :: acceptances)) : CoinbaseFirst (i + 1) acceptances := by
  intro j other hother
  rw [Nat.add_right_comm]
  exact h (j + 1) other hother

theorem coinbaseFirst_of_body {transactions : List DomainTransaction} (hbody : BlockValidator.ValidBody transactions)
    (hmap : acceptances.map (·.transaction) = transactions) : CoinbaseFirst 0 acceptances := by
  obtain ⟨coinbase, rest, heq, hcoinbase, hplain⟩ := hbody.positions
  intro j acceptance hj
  have hget : transactions[j]? = some acceptance.transaction := by rw [← hmap, List.getElem?_map, hj]; rfl
  rw [heq] at hget
  cases j with
  | zero =>
    cases hget
    simp [hcoinbase]
  | succ j => simp [hplain _ (mem_of_getElem? hget)]

variable {daaScore : ℕ} {accepted accepted' : List DomainTransaction} {S S' : UTXOSet}

theorem Run.multiset (hm : SoundStore m v) (h : Run m daaScore accepted S acceptances accepted' S')
    (hfirst : CoinbaseFirst i acceptances) (hms : ms = total (entryElement m) S) :
    addTransactionsToMultiset m daaScore i acceptances ms = total (entryElement m) S' := by
  induction h generalizing i ms with
  | nil => exact hms
  | skip hno _ ih =>
    rw [addTransactionsToMultiset, if_pos (by simp [hno])]
    exact ih hfirst.tail hms
  | @accept _ _ S _ tx fee entries _ hledger hexec _ _ ih =>
    have hflag : (i == 0) = isCoinBase tx := hfirst 0 _ rfl
    rw [addTransactionsToMultiset, if_neg (by simp)]
    refine ih hfirst.tail ?_
    have htotal := hexec.total hm hledger (entryElement m) daaScore
    rw [addTransactionToMultiset, addToMultiset_eq, removeFromMultiset_eq, hflag, hms, sub_add_eq_add_sub, ← htotal,
      add_sub_cancel_right]

theorem RunBlocks.multiset (hm : SoundStore m v) {acceptanceData : AcceptanceData}
    (h : RunBlocks m daaScore accepted S acceptanceData accepted' S')
    (hfirst : ∀ block ∈ acceptanceData, CoinbaseFirst 0 block.transactionAcceptanceData)
    (hms : ms = total (entryElement m) S) :
    addBlocksToMultiset m daaScore acceptanceData ms = total (entryElement m) S' := by
  induction h generalizing ms with
  | nil => exact hms
  | block hrun _ ih =>
    rw [addBlocksToMultiset, foldl_cons]
    exact ih (fun block hblock => hfirst block (mem_cons_of_mem _ hblock))
      (hrun.multiset hm (hfirst _ mem_cons_self) hms)

end

/-! ## DAA scores -/

section
variable {Digest Multiset : Type} {m : UTXOManager Digest Multiset} {v : BlockValidator} {bound daaScore : ℕ}
  {accepted accepted' : List DomainTransaction} {S S' : UTXOSet}

def ScoresBelow (bound : ℕ) (S : UTXOSet) : Prop := ∀ o e, S o = some e → e.blockDAAScore < bound

variable (hm : SoundStore m v)
include hm

theorem ScoresBelow.execute {tx : DomainTransaction} (htx : Stored m tx) (hscore : daaScore < bound)
    (h : ScoresBelow bound S) : ScoresBelow bound (S.execute tx daaScore) := by
  intro o e ho
  by_cases hmem : o ∈ (outputEntries tx (isCoinBase tx) daaScore).map Prod.fst
  · obtain ⟨⟨o', e'⟩, hout, rfl⟩ := mem_map.mp hmem
    rw [UTXOSet.execute, setAll_of_mem (nodup_outputEntries (hm.outputs tx htx)) hout] at ho
    cases ho
    exact (mem_outputEntries hout).2.2.1.trans_lt hscore
  · rw [UTXOSet.execute, setAll_of_notMem hmem, clearAll_apply] at ho
    split_ifs at ho
    exact h o e ho

theorem Run.scoresBelow {acceptances : List TransactionAcceptanceData}
    (hrun : Run m daaScore accepted S acceptances accepted' S') (hscore : daaScore < bound)
    (h : ScoresBelow bound S) : ScoresBelow bound S' := by
  induction hrun with
  | nil => exact h
  | skip _ _ ih => exact ih h
  | accept _ hexec _ _ ih => exact ih (h.execute hm hexec.stored hscore)

theorem RunBlocks.scoresBelow {acceptanceData : AcceptanceData}
    (hrun : RunBlocks m daaScore accepted S acceptanceData accepted' S') (hscore : daaScore < bound)
    (h : ScoresBelow bound S) : ScoresBelow bound S' := by
  induction hrun with
  | nil => exact h
  | block hrun _ ih => exact ih (hrun.scoresBelow hm hscore h)

theorem Ledger.inRange (h : Ledger m accepted S) (hscores : ScoresBelow (2 ^ 64) S)
    {o : DomainOutpoint} {e : UTXOEntry} (ho : S o = some e) : InRange o e := by
  obtain ⟨tx, htx, hmem⟩ := h.created o e ho
  obtain ⟨hid, -, -, i, output, hi, hindex, -, hscript⟩ := mem_outputEntries hmem
  obtain ⟨hversion, hlength⟩ := hm.scripts tx (h.stored tx htx) output (mem_of_getElem? hi)
  refine ⟨hid ▸ hm.id tx (h.stored tx htx), ?_, hscores o e ho, h.amount_lt hm ho, hscript ▸ hversion,
    hscript ▸ hlength⟩
  rw [hindex]
  exact Nat.mod_lt _ (by norm_num)

end

structure Committed {Digest Multiset : Type} [AddCommGroup Multiset] (m : UTXOManager Digest Multiset) (h : DomainHash)
    (S : UTXOSet) (ms : Multiset) (accepted : List DomainTransaction) : Prop where
  ledger : ChainLedger m h accepted S
  scores : ScoresBelow (2 ^ 64) S
  multiset : ms = total (entryElement m) S

theorem UTXOValid.committed {Digest Multiset : Type} [AddCommGroup Multiset] [DecidableEq Digest]
    {g : Ghostdag.Manager} {dag : List Block} {m : UTXOManager Digest Multiset} {v : BlockValidator}
    (hs : SoundDag g dag m v) {h : DomainHash} {S : UTXOSet} {ms : Multiset} {acceptanceData : AcceptanceData}
    (hvalid : UTXOValid m h S ms acceptanceData) : ∃ accepted, Committed m h S ms accepted := by
  induction hvalid with
  | genesis => exact ⟨[], hs.genesis_ledger, by simp [ScoresBelow], total_none.symm⟩
  | block hne hblock hd hsp _ hV hdiff hms hpast hverify ih =>
    obtain ⟨accepted, hledger, hscores, hmultiset⟩ := ih
    obtain ⟨accepted', daaScore, others, blocks, hstep, -⟩ :=
      hs.block_step hne hblock hd hsp hV hdiff hms hpast hverify hledger
    refine ⟨accepted', hstep.ledger, hstep.run.scoresBelow hs.toSoundStore (hs.daaScore _ _ hstep.score) hscores, ?_⟩
    refine hstep.multiset.trans (hstep.run.multiset hs.toSoundStore (fun acceptance hmem => ?_) hmultiset)
    obtain ⟨i, hi, rfl⟩ := getElem_of_mem hmem
    have hi' := hstep.blocks.length_eq ▸ hi
    exact coinbaseFirst_of_body (hs.validBody (hstep.stored blocks[i] (getElem_mem hi')))
      (forall₂_iff_get.mp hstep.blocks |>.2 i hi' hi).2

/-! ## The free abelian group -/

section
variable {S S' : UTXOSet}

def occurrences (bytes : List UInt8) : FreeAbelianGroup (List UInt8) →+ ℤ :=
  FreeAbelianGroup.lift fun other => if other = bytes then 1 else 0

noncomputable def bytesOf (S : UTXOSet) : FreeAbelianGroup (List UInt8) :=
  total (fun o e => FreeAbelianGroup.of (serializeUTXO e o)) S

variable (hfinite : FinitelyMany S)
include hfinite in
theorem occurrences_bytesOf (bytes : List UInt8) :
    occurrences bytes (bytesOf S) = total (fun o e => if serializeUTXO e o = bytes then (1 : ℤ) else 0) S := by
  rw [bytesOf, map_total hfinite]
  simp [occurrences]

variable {o : DomainOutpoint} {e : UTXOEntry}
include hfinite

theorem occurrences_pos (ho : S o = some e) : 0 < occurrences (serializeUTXO e o) (bytesOf S) := by
  rw [occurrences_bytesOf hfinite, ← total_clear hfinite ho, if_pos rfl]
  have hnonneg : 0 ≤ total (fun o' e' => if serializeUTXO e' o' = serializeUTXO e o then (1 : ℤ) else 0)
      (update S o none) := by
    refine finsum_nonneg fun o' => ?_
    cases update S o none o' with
    | none => exact le_rfl
    | some e' => simp only [Option.elim_some]; split_ifs <;> decide
  omega

theorem exists_of_occurrences {bytes : List UInt8} (h : occurrences bytes (bytesOf S) ≠ 0) :
    ∃ o e, S o = some e ∧ serializeUTXO e o = bytes := by
  by_contra hnone
  push Not at hnone
  refine h ?_
  rw [occurrences_bytesOf hfinite]
  refine finsum_eq_zero_of_forall_eq_zero fun o => ?_
  cases ho : S o with
  | none => rfl
  | some e => exact if_neg (hnone o e ho)

theorem subset_of_bytesOf_eq (hfinite' : FinitelyMany S')
    (hrange : ∀ o e, S o = some e → InRange o e) (hrange' : ∀ o e, S' o = some e → InRange o e)
    (heq : bytesOf S = bytesOf S') (ho : S o = some e) : S' o = some e := by
  have hpos := occurrences_pos hfinite ho
  rw [heq] at hpos
  obtain ⟨o', e', ho', hbytes⟩ := exists_of_occurrences hfinite' hpos.ne'
  obtain ⟨rfl, rfl⟩ := serializeUTXO_injective (hrange' o' e' ho') (hrange o e ho) hbytes
  exact ho'

theorem bytesOf_injective (hfinite' : FinitelyMany S') (hrange : ∀ o e, S o = some e → InRange o e)
    (hrange' : ∀ o e, S' o = some e → InRange o e) (heq : bytesOf S = bytesOf S') : S = S' := by
  funext o
  cases ho : S o with
  | some e => exact (subset_of_bytesOf_eq hfinite hfinite' hrange hrange' heq ho).symm
  | none =>
    cases ho' : S' o with
    | none => rfl
    | some e =>
      rw [subset_of_bytesOf_eq hfinite' hfinite hrange' hrange heq.symm ho'] at ho
      cases ho

end

/-- Two UTXO valid blocks have the same multiset exactly when they have the same past UTXO set. -/
theorem multiset_commits_to_utxoSet {Digest : Type} [DecidableEq Digest] {g : Ghostdag.Manager} {dag : List Block}
    {m : UTXOManager Digest (FreeAbelianGroup (List UInt8))} {v : BlockValidator} (hs : SoundDag g dag m v)
    (helement : m.element = FreeAbelianGroup.of) : (∀ h S ms acceptanceData, UTXOValid m h S ms acceptanceData →
      FinitelyMany S ∧ ms = total (fun o e => FreeAbelianGroup.of (serializeUTXO e o)) S) ∧
    ∀ h S ms acceptanceData h' S' ms' acceptanceData', UTXOValid m h S ms acceptanceData →
      UTXOValid m h' S' ms' acceptanceData' →
        (S = S' ↔ ms = ms') ∧ (S = S' → m.multisetHash ms = m.multisetHash ms') := by
  have hbytes : ∀ h S ms acceptanceData, UTXOValid m h S ms acceptanceData →
      FinitelyMany S ∧ (∀ o e, S o = some e → InRange o e) ∧ ms = bytesOf S := by
    intro h S ms acceptanceData hvalid
    obtain ⟨accepted, hledger, hscores, hmultiset⟩ := hvalid.committed hs
    refine ⟨hledger.finite, fun o e ho => hledger.inRange hs.toSoundStore hscores ho, hmultiset.trans ?_⟩
    unfold entryElement bytesOf
    rw [helement]
  refine ⟨fun h S ms acceptanceData hvalid => ?_, fun h S ms _ h' S' ms' _ hvalid hvalid' => ?_⟩
  · obtain ⟨hfinite, -, heq⟩ := hbytes h S ms acceptanceData hvalid
    exact ⟨hfinite, heq⟩
  obtain ⟨hfinite, hrange, rfl⟩ := hbytes h S ms _ hvalid
  obtain ⟨hfinite', hrange', rfl⟩ := hbytes h' S' ms' _ hvalid'
  refine ⟨⟨fun heq => heq ▸ rfl, bytesOf_injective hfinite hfinite' hrange hrange'⟩, fun heq => heq ▸ rfl⟩

theorem multiset_commits_to_utxoSet_sample : ∃ S ms acceptanceData, UTXOValid sampleManager 4 S ms acceptanceData ∧
      ms = total (fun o e => FreeAbelianGroup.of (serializeUTXO e o)) S := by
  obtain ⟨S, ms, acceptanceData, hvalid⟩ := sample_valid
  exact ⟨S, ms, acceptanceData, hvalid,
    ((multiset_commits_to_utxoSet sample_soundDag rfl).1 4 S ms acceptanceData hvalid).2⟩

end Kaspad.ConsensusState
