import Kaspad.ConsensusState.UTXOValid

/-! # The supply

The outputs of a coinbase transaction are at most the subsidies and the fees of the merge set. So what
the UTXO set of a block and its own coinbase outputs are worth grows by at most the subsidies of the
merge set from the selected parent to the block, and the merge sets of a selected chain partition the
past.
-/

namespace Kaspad.ConsensusState
open Lib Ghostdag TransactionValidator CoinbaseManager List

variable {Digest Multiset : Type}

noncomputable def value (S : UTXOSet) : ℕ := total (fun _ e => e.amount) S

/-! ## What acceptance does to the value -/

def fees (acceptances : List TransactionAcceptanceData) : ℕ :=
  (acceptances.map fun acceptance => if acceptance.isAccepted then acceptance.fee else 0).sum

def minted (acceptances : List TransactionAcceptanceData) : ℕ :=
  (acceptances.map fun acceptance => if acceptance.isAccepted ∧ isCoinBase acceptance.transaction then
    outputTotal acceptance.transaction.outputs else 0).sum

section
variable {m : UTXOManager Digest Multiset} {v : BlockValidator} {daaScore : ℕ}

theorem amount_zip {o : List DomainOutpoint} {entries : List UTXOEntry} (hlen : o.length = entries.length) :
    ((o.zip entries).map fun kv => kv.2.amount).sum = entryTotal entries := by
  have hsnd : ((o.zip entries).map Prod.snd).map (·.amount) = entries.map (·.amount) := by
    rw [map_snd_zip hlen.ge]
  rw [entryTotal, ← hsnd, map_map]
  rfl

theorem amount_outputEntries (tx : DomainTransaction) (isCoinbase : Bool) :
    ((outputEntries tx isCoinbase daaScore).map fun kv => kv.2.amount).sum = outputTotal tx.outputs := by
  have hfst : (tx.outputs.zipIdx.map Prod.fst).map (·.value) = tx.outputs.map (·.value) := by simp
  rw [outputTotal, ← hfst, outputEntries, map_map, map_map]
  rfl

variable {acceptances : List TransactionAcceptanceData} {accepted accepted' : List DomainTransaction} {S S' : UTXOSet}

theorem Run.value_eq (hm : SoundStore m v) (h : Run m daaScore accepted S acceptances accepted' S') :
    value S' + fees acceptances = value S + minted acceptances := by
  induction h with
  | nil => simp [fees, minted]
  | skip hno _ ih => simpa [fees, minted, hno] using ih
  | @accept accepted _ S _ tx fee entries acceptances hledger hexec hfee _ ih =>
    have hexecuted := hexec.total hm hledger (fun _ e => e.amount) daaScore
    rw [amount_zip hexec.length, amount_outputEntries] at hexecuted
    simp only [value, fees, minted, map_cons, sum_cons, if_true, true_and] at ih hexecuted ⊢
    omega

theorem RunBlocks.value_eq (hm : SoundStore m v) {acceptanceData : AcceptanceData}
    (h : RunBlocks m daaScore accepted S acceptanceData accepted' S') :
    value S' + (acceptanceData.map fun block => fees block.transactionAcceptanceData).sum =
      value S + (acceptanceData.map fun block => minted block.transactionAcceptanceData).sum := by
  induction h with
  | nil => simp
  | block hrun _ ih =>
    have hblock := hrun.value_eq hm
    simp only [map_cons, sum_cons]
    omega

theorem minted_eq_zero
    (h : ∀ acceptance ∈ acceptances, acceptance.isAccepted = true → isCoinBase acceptance.transaction = false) :
    minted acceptances = 0 := by
  refine sum_eq_zero fun n hn => ?_
  obtain ⟨acceptance, hmem, rfl⟩ := mem_map.mp hn
  refine if_neg fun hyes => ?_
  have hno := h acceptance hmem hyes.1
  rw [hyes.2] at hno
  cases hno

theorem minted_le {coinbase : DomainTransaction} {rest : List DomainTransaction}
    (hmap : acceptances.map (·.transaction) = coinbase :: rest) (hplain : ∀ tx ∈ rest, isCoinBase tx = false) :
    minted acceptances ≤ outputTotal coinbase.outputs := by
  cases acceptances with
  | nil => cases hmap
  | cons first others =>
    obtain ⟨rfl, hrest⟩ := List.cons.inj hmap
    have hzero : minted others = 0 := by
      refine minted_eq_zero fun acceptance hmem _ => ?_
      exact hplain _ (hrest ▸ mem_map_of_mem hmem)
    unfold minted at hzero ⊢
    rw [map_cons, sum_cons, hzero]
    split_ifs <;> simp

end

/-! ## What a coinbase transaction pays -/

/-- What the coinbase transaction of the block pays. -/
def coinbaseOutputTotal (m : UTXOManager Digest Multiset) (h : DomainHash) : ℕ :=
  match m.blocks.lookup h with
  | some ⟨_, coinbase :: _⟩ => outputTotal coinbase.outputs
  | _ => 0

theorem coinbaseOutputTotal_eq {m : UTXOManager Digest Multiset} {h : DomainHash} {block : DomainBlock} {coinbase : DomainTransaction}
    {rest : List DomainTransaction} (hblock : m.blocks.lookup h = some block)
    (hbody : block.transactions = coinbase :: rest) : coinbaseOutputTotal m h = outputTotal coinbase.outputs := by
  obtain ⟨header, transactions⟩ := block
  obtain rfl : transactions = coinbase :: rest := hbody
  simp [coinbaseOutputTotal, hblock]

/-- The subsidy that the payload of the coinbase transaction of the block names. -/
def recordedSubsidy (m : CoinbaseManager) (h : DomainHash) : ℕ :=
  match m.blocks.lookup h with
  | some ⟨_, coinbase :: _⟩ =>
    match m.extract coinbase with
    | .ok (_, _, subsidy) => subsidy
    | .error _ => 0
  | _ => 0

def mergedFees (acceptanceData : AcceptanceData) (h : DomainHash) : ℕ :=
  match acceptanceDataOf acceptanceData h with
  | .ok block => fees block.transactionAcceptanceData
  | .error _ => 0

section
variable {c : CoinbaseManager} {acceptanceData : AcceptanceData} {daaAdded : List DomainHash}

theorem totalFees_le (block : BlockAcceptanceData) : totalFees block ≤ fees block.transactionAcceptanceData := by
  have hloop : ∀ (acceptances : List TransactionAcceptanceData) (start : ℕ),
      acceptances.foldl (fun totalFees tx => if tx.isAccepted then (totalFees + tx.fee) % 2 ^ 64 else totalFees)
        start ≤ start + fees acceptances := by
    intro acceptances
    induction acceptances with
    | nil => simp [fees]
    | cons acceptance acceptances ih =>
      intro start
      have hrest := ih (if acceptance.isAccepted then (start + acceptance.fee) % 2 ^ 64 else start)
      have hmod := Nat.mod_le (start + acceptance.fee) (2 ^ 64)
      simp only [foldl_cons, fees, map_cons, sum_cons] at hrest ⊢
      split_ifs at hrest ⊢ <;> omega
  simpa [totalFees] using hloop block.transactionAcceptanceData 0

variable {h : DomainHash} {block : BlockAcceptanceData}

theorem calcMergedBlockReward_le {reward : ℕ} (hreward : c.calcMergedBlockReward h block daaAdded = .ok reward) :
    reward ≤ recordedSubsidy c h + fees block.transactionAcceptanceData := by
  unfold calcMergedBlockReward at hreward
  split_ifs at hreward
  · obtain ⟨⟨header, transactions⟩, hfind, hreward⟩ := bind_eq_ok.mp hreward
    have hlookup : c.blocks.lookup h = some ⟨header, transactions⟩ := by
      unfold find at hfind
      split at hfind
      · next heq => rw [heq, Except.ok.inj hfind]
      · cases hfind
    cases transactions with
    | nil => cases hreward
    | cons coinbase rest =>
      obtain ⟨⟨blueScore, data, subsidy⟩, hextract, hreward⟩ := bind_eq_ok.mp hreward
      cases hreward
      have hfees := totalFees_le block
      have hsubsidy : recordedSubsidy c h = subsidy := by simp [recordedSubsidy, hlookup, hextract]
      rw [hsubsidy]
      exact (Nat.mod_le _ _).trans (Nat.add_le_add_left hfees subsidy)
  · exact Except.ok.inj hreward ▸ Nat.zero_le _

theorem mergedFees_eq (hfind : acceptanceDataOf acceptanceData h = .ok block) :
    mergedFees acceptanceData h = fees block.transactionAcceptanceData := by
  simp [mergedFees, hfind]

theorem blueOutputs_le {blues : List DomainHash} {txOuts : List DomainTransactionOutput}
    (h : c.blueOutputs acceptanceData daaAdded blues = .ok txOuts) :
    outputTotal txOuts ≤ (blues.map fun x => recordedSubsidy c x + mergedFees acceptanceData x).sum := by
  induction blues generalizing txOuts with
  | nil =>
    cases h
    simp [outputTotal]
  | cons blue blues ih =>
    obtain ⟨block, hblock, h⟩ := bind_eq_ok.mp h
    obtain ⟨txOut, htxOut, h⟩ := bind_eq_ok.mp h
    obtain ⟨rest, hrest, h⟩ := bind_eq_ok.mp h
    cases h
    have hle := ih hrest
    have hone : outputTotal txOut.toList ≤ recordedSubsidy c blue + mergedFees acceptanceData blue := by
      rw [mergedFees_eq hblock]
      obtain ⟨reward, hreward, htxOut⟩ := bind_eq_ok.mp htxOut
      have hreward := calcMergedBlockReward_le hreward
      split_ifs at htxOut
      · cases htxOut
        exact Nat.zero_le _
      split at htxOut
      · cases htxOut
      obtain ⟨data, -, htxOut⟩ := bind_eq_ok.mp htxOut
      cases htxOut
      simpa [outputTotal] using hreward
    simp only [outputTotal, map_append, sum_append, map_cons, sum_cons] at hle hone ⊢
    omega

theorem redReward_le {reds : List DomainHash} {start reward : ℕ}
    (h : c.redReward acceptanceData daaAdded start reds = .ok reward) :
    reward ≤ start + (reds.map fun x => recordedSubsidy c x + mergedFees acceptanceData x).sum := by
  induction reds generalizing start with
  | nil =>
    cases h
    simp
  | cons red reds ih =>
    obtain ⟨block, hblock, h⟩ := bind_eq_ok.mp h
    obtain ⟨one, hone, h⟩ := bind_eq_ok.mp h
    have hone := calcMergedBlockReward_le hone
    rw [← mergedFees_eq hblock] at hone
    have hmod := Nat.mod_le (start + one) (2 ^ 64)
    have hle := ih h
    simp only [map_cons, sum_cons]
    omega

theorem expectedCoinbaseTransaction_le {d : BlockGHOSTDAGData} {data : DomainCoinbaseData}
    {expected : DomainTransaction} {hasRedReward : Bool}
    (hexpected : c.expectedCoinbaseTransaction h d acceptanceData data = .ok (expected, hasRedReward)) :
    outputTotal expected.outputs ≤
      ((mergeSet d).map (recordedSubsidy c)).sum + ((mergeSet d).map (mergedFees acceptanceData)).sum := by
  obtain ⟨daaAdded, -, hexpected⟩ := bind_eq_ok.mp hexpected
  obtain ⟨txOuts, htxOuts, hexpected⟩ := bind_eq_ok.mp hexpected
  obtain ⟨txOut, htxOut, hexpected⟩ := bind_eq_ok.mp hexpected
  obtain ⟨subsidy, -, hexpected⟩ := bind_eq_ok.mp hexpected
  obtain ⟨payload, -, hexpected⟩ := bind_eq_ok.mp hexpected
  cases hexpected
  have hblues := blueOutputs_le htxOuts
  obtain ⟨reward, hreward, htxOut⟩ := bind_eq_ok.mp htxOut
  have hreds := redReward_le hreward
  have hred : outputTotal txOut.toList ≤ reward := by
    split_ifs at htxOut <;> obtain rfl := Except.ok.inj htxOut <;> simp [outputTotal]
  simp only [sum_map_add] at hblues hreds
  simp only [outputTotal, mergeSet, map_append, sum_append] at hblues hred ⊢
  omega

end

/-! ## The bound -/

open Classical in
noncomputable def past (dag : List Block) (h : DomainHash) : Finset DomainHash :=
  (hashes dag).toFinset.filter fun x => InPast dag x h

variable {acceptanceData : AcceptanceData}

theorem sum_mergedFees (hnodup : (acceptanceData.map (·.blockHash)).Nodup) :
    ((acceptanceData.map (·.blockHash)).map (mergedFees acceptanceData)).sum =
      (acceptanceData.map fun block => fees block.transactionAcceptanceData).sum := by
  rw [map_map]
  refine congrArg List.sum (map_congr_left fun block hmem => mergedFees_eq ?_)
  cases hfind : acceptanceData.reverse.find? (·.blockHash = block.blockHash) with
  | none =>
    have hnone := List.find?_eq_none.mp hfind block (mem_reverse.mpr hmem)
    simp at hnone
  | some other =>
    have hother := mem_reverse.mp (mem_of_find?_eq_some hfind)
    have hhash : other.blockHash = block.blockHash := by simpa using List.find?_some hfind
    obtain rfl : other = block := inj_on_of_nodup_map hnodup hother hmem hhash
    simp [acceptanceDataOf, hfind]

section
variable {g : Ghostdag.Manager} {dag : List Block} {m : UTXOManager Digest Multiset} {v : BlockValidator}
  (hs : SoundDag g dag m v)
include hs

theorem SoundDag.sum_past {b : Block} {d : BlockGHOSTDAGData} {sp : DomainHash} (hb : b ∈ dag)
    (hmerge : MergeData dag m.ghostdagDataStore b d sp) (weight : DomainHash → ℕ) :
    ∑ x ∈ past dag b.hash, weight x = ((mergeSet d).map weight).sum + ∑ x ∈ past dag sp, weight x := by
  classical
  have hunion : past dag b.hash = (mergeSet d).toFinset ∪ past dag sp := by
    ext x
    have hmem : x ∈ mergeSet d → x ∈ hashes dag := by
      rw [hmerge.mergeSet_eq, mem_cons]
      rintro (rfl | hx)
      · exact hs.isDAG.parent_mem ⟨b, hb, rfl, hmerge.mem⟩
      · exact hmerge.merged_mem hs.isDAG hb x hx
    simp only [past, Finset.mem_filter, Finset.mem_union, mem_toFinset,
      hmerge.inPast_iff hs.isDAG.toTopological hb]
    tauto
  have hdisjoint : Disjoint (mergeSet d).toFinset (past dag sp) := by
    refine Finset.disjoint_left.mpr fun x hx hpast => ?_
    exact hmerge.not_inPast (mem_toFinset.mp hx) (Finset.mem_filter.mp hpast).2
  rw [hunion, Finset.sum_union hdisjoint, sum_toFinset weight hmerge.nodup_mergeSet]

variable [AddCommGroup Multiset] [DecidableEq Digest] {S : UTXOSet} {ms : Multiset} {acceptanceData : AcceptanceData}

omit [DecidableEq Digest] in
theorem SoundDag.minted_step {blockHash selectedParent : DomainHash}
    {accepted accepted' : List DomainTransaction} {S' : UTXOSet} {multiset : Multiset}
    {daaScore : ℕ} {others : List DomainHash} {blocks : List (DomainHash × DomainBlock)}
    (hstep : BlockStep m blockHash selectedParent accepted S ms acceptanceData accepted' S' multiset daaScore others
      blocks) : (acceptanceData.map fun block => minted block.transactionAcceptanceData).sum ≤
      coinbaseOutputTotal m selectedParent := by
  have hblocks := hstep.blocks
  have hhashes := hstep.hashes
  have hstored := hstep.stored
  have hplain := hstep.plain
  cases hblocks with
  | nil => simp at hhashes
  | @cons first acceptance blocks acceptances hfirst _ =>
    have htail : (acceptances.map fun block => minted block.transactionAcceptanceData).sum = 0 := by
      refine sum_eq_zero fun n hn => ?_
      obtain ⟨block, hmem, rfl⟩ := mem_map.mp hn
      exact minted_eq_zero (hplain block hmem)
    obtain ⟨hhash, -⟩ := List.cons.inj hhashes
    have hlookup := hstored first (by simp)
    obtain ⟨coinbase, rest, hbody, -, hrest⟩ := (hs.validBody hlookup).positions
    rw [map_cons, sum_cons, htail, ← hhash, coinbaseOutputTotal_eq hlookup hbody]
    exact minted_le (hfirst.2.trans hbody) hrest

theorem UTXOValid.value_le {h : DomainHash} (hvalid : UTXOValid m h S ms acceptanceData) :
    value S + coinbaseOutputTotal m h ≤
      coinbaseOutputTotal m m.genesisHash + ∑ x ∈ past dag h, recordedSubsidy m.toCoinbaseManager x := by
  induction hvalid with
  | genesis => simp [value, total_none]
  | @block blockHash selectedParent block d S V ms multiset _ acceptanceData _ _ utxoDiff hne hblock hd hsp hvalid hV
      hdiff hms hpast hverify ih =>
    obtain ⟨accepted, hledger⟩ := hvalid.chainLedger hs
    obtain ⟨accepted', daaScore, others, blocks, hstep, hperm⟩ :=
      hs.block_step hne hblock hd hsp hV hdiff hms hpast hverify hledger
    obtain ⟨b, hb, rfl, sp, hmerge⟩ := hs.recorded.mergeData_of hs.isDAG hd (hs.genesisHash ▸ hne)
    cases hsp.symm.trans hmerge.selectedParent
    have hvalue := hstep.run.value_eq hs.toSoundStore
    have hminted := hs.minted_step hstep
    -- The fees that the coinbase transaction pays out are those that left the UTXO set.
    have hhashes : acceptanceData.map (·.blockHash) = selectedParent :: others := by
      rw [← hstep.hashes]
      rw [← forall₂_eq_eq_eq, forall₂_map_left_iff, forall₂_map_right_iff]
      exact hstep.blocks.flip.imp fun _ _ h => h.1
    have hmergeSet : (mergeSet d).Perm (acceptanceData.map (·.blockHash)) := by
      rw [hhashes, hmerge.mergeSet_eq]
      exact (hperm.cons selectedParent).symm
    have hfees := sum_mergedFees (hmergeSet.nodup_iff.mp hmerge.nodup_mergeSet)
    rw [← (hmergeSet.map (mergedFees acceptanceData)).sum_eq] at hfees
    obtain ⟨coinbase, rest, data, expected, hasRedReward, hbody, hexpected, houtputs, -⟩ :=
      verifyUTXO_coinbase hs.toSoundStore hblock hd hverify
    have hpaid := expectedCoinbaseTransaction_le hexpected
    rw [← houtputs, ← coinbaseOutputTotal_eq hblock hbody] at hpaid
    rw [hs.sum_past hb hmerge]
    omega

end

/-- The past UTXO set is worth at most the coinbase outputs of genesis and the subsidies of the past. -/
theorem supply_bound [AddCommGroup Multiset] [DecidableEq Digest] {g : Ghostdag.Manager} {dag : List Block}
    {m : UTXOManager Digest Multiset} {v : BlockValidator} (hs : SoundDag g dag m v) :
    ∀ h S ms acceptanceData, UTXOValid m h S ms acceptanceData → FinitelyMany S ∧
      total (fun _ e => e.amount) S ≤ coinbaseOutputTotal m m.genesisHash +
        ∑ x ∈ past dag h, recordedSubsidy m.toCoinbaseManager x := by
  intro h S ms acceptanceData hvalid
  obtain ⟨accepted, hledger⟩ := hvalid.chainLedger hs
  exact ⟨hledger.finite, (Nat.le_add_right _ _).trans (hvalid.value_le hs)⟩

theorem supply_bound_sample : ∃ S ms acceptanceData, UTXOValid sampleManager 4 S ms acceptanceData ∧
      total (fun _ e => e.amount) S ≤ coinbaseOutputTotal sampleManager 1 +
        ∑ x ∈ past diamond 4, recordedSubsidy sampleManager.toCoinbaseManager x := by
  obtain ⟨S, ms, acceptanceData, hvalid⟩ := sample_valid
  exact ⟨S, ms, acceptanceData, hvalid, (supply_bound sample_soundDag 4 S ms acceptanceData hvalid).2⟩

end Kaspad.ConsensusState
