import Kaspad.ConsensusState.Ledger
import Kaspad.Traversal.SelectedChain
import Mathlib.GroupTheory.FreeAbelianGroup

/-! # UTXO valid blocks

The blocks whose status resolves to UTXO valid, with their past UTXO set, multiset and acceptance data, from
genesis up the selected chain. A block may be resolved at any time: the virtual UTXO set is any set, as
long as the restored past UTXO of the selected parent is the difference to the set of the selected parent.
-/

namespace Kaspad.ConsensusState
open Lib Function Ghostdag Traversal TransactionValidator AList

variable {Digest Multiset : Type}

def payloadBlueScore (tx : DomainTransaction) : ℕ := LittleEndian.decode (tx.payload.take 8)

/-- The stores hold what was recorded for a DAG of blocks with valid bodies. -/
structure SoundDag (g : Ghostdag.Manager) (dag : List Block) (m : UTXOManager Digest Multiset)
    (v : BlockValidator) : Prop extends SoundStore m v where
  isDAG : IsDAG g dag
  recorded : Recorded g dag dag m.ghostdagDataStore
  length : dag.length < 2 ^ 64
  genesisHash : m.genesisHash = g.genesisHash
  genesisPayload : ∀ block coinbase rest, m.blocks.lookup m.genesisHash = some block →
    block.transactions = coinbase :: rest → payloadBlueScore coinbase = 0

/-- The coinbase transactions in it are of blocks of the selected chain, told apart by their blue scores. -/
structure ChainLedger (m : UTXOManager Digest Multiset) (h : DomainHash) (accepted : List DomainTransaction)
    (S : UTXOSet) : Prop extends Ledger m accepted S where
  coinbases : ∀ tx ∈ accepted, isCoinBase tx = true → payloadBlueScore tx < score m.ghostdagDataStore h
  own : ∀ block coinbase rest, m.blocks.lookup h = some block → block.transactions = coinbase :: rest →
    payloadBlueScore coinbase = score m.ghostdagDataStore h

section
variable {g : Ghostdag.Manager} {dag : List Block} {m : UTXOManager Digest Multiset} {v : BlockValidator}

theorem findBlocks_ok {hashes : List DomainHash} {blocks : List (DomainHash × DomainBlock)}
    (h : findBlocks m hashes = .ok blocks) :
    blocks.map Prod.fst = hashes ∧ ∀ block ∈ blocks, m.blocks.lookup block.1 = some block.2 := by
  induction hashes generalizing blocks with
  | nil =>
    cases h
    simp
  | cons hash hashes ih =>
    unfold findBlocks at h
    cases hblock : m.blocks.lookup hash with
    | none => simp [hblock, throw, throwThe, MonadExceptOf.throw] at h
    | some block =>
      simp only [hblock] at h
      obtain ⟨rest, hrest, h⟩ := bind_eq_ok.mp h
      cases h
      obtain ⟨hmap, hstored⟩ := ih hrest
      refine ⟨by simp [hmap], fun other hother => ?_⟩
      rcases List.mem_cons.mp hother with rfl | hother
      · exact hblock
      · exact hstored other hother

variable {block : DomainBlock} {d : BlockGHOSTDAGData} {h : DomainHash}

theorem verifyUTXO_coinbase [DecidableEq Digest] (hm : SoundStore m v) {V : UTXOSet}
    {blockHash : DomainHash} {utxoDiff : MutableUTXODiff} {acceptanceData : AcceptanceData}
    {multiset : Multiset} (hblock : m.blocks.lookup blockHash = some block)
    (hd : m.ghostdagDataStore.data.lookup blockHash = some d)
    (h : verifyUTXO m V block blockHash utxoDiff acceptanceData multiset = .ok ()) :
    ∃ coinbase rest coinbaseData expected hasRedReward, block.transactions = coinbase :: rest ∧
      m.expectedCoinbaseTransaction blockHash d acceptanceData coinbaseData = .ok (expected, hasRedReward) ∧
      coinbase.outputs = expected.outputs ∧ coinbase.payload = expected.payload := by
  obtain ⟨⟨⟩, -, h⟩ := bind_eq_ok.mp h
  obtain ⟨⟨⟩, -, h⟩ := bind_eq_ok.mp h
  cases hbody : block.transactions with
  | nil => simp [hbody, throw, throwThe, MonadExceptOf.throw] at h
  | cons coinbase rest =>
    simp only [hbody] at h
    obtain ⟨⟨⟩, hcoinbase, -⟩ := bind_eq_ok.mp h
    obtain ⟨⟨blueScore, coinbaseData, subsidy⟩, -, hcoinbase⟩ := bind_eq_ok.mp hcoinbase
    obtain ⟨d', hd', hcoinbase⟩ := bind_eq_ok.mp hcoinbase
    obtain rfl : d' = d := by
      have hget := mapError_eq_ok.mp hd'
      rw [get_eq hd] at hget
      exact (Except.ok.inj hget).symm
    obtain ⟨⟨expected, hasRedReward⟩, hexpected, hcoinbase⟩ := bind_eq_ok.mp hcoinbase
    refine ⟨coinbase, rest, coinbaseData, expected, hasRedReward, rfl, mapError_eq_ok.mp hexpected, ?_⟩
    simp only at hcoinbase
    split_ifs at hcoinbase with hne
    · exact hm.digests coinbase expected ⟨blockHash, block, hblock, by simp [hbody]⟩ (not_not.mp hne)

variable (hs : SoundDag g dag m v)
include hs

theorem SoundDag.selectedTree : SelectedTree m.genesisHash m.ghostdagDataStore := by
  rw [hs.genesisHash]
  exact selectedTree_of_recorded hs.isDAG hs.recorded hs.length

theorem SoundDag.blueScore_lt (hd : m.ghostdagDataStore.data.lookup h = some d) : d.blueScore < 2 ^ 64 := by
  rw [← score_eq hd]
  exact (score_le hs.isDAG hs.recorded hs.length (hs.recorded.only h d hd)).trans_lt hs.length

theorem SoundDag.coinbase_new {accepted rest : List DomainTransaction} {S : UTXOSet}
    (hledger : ChainLedger m h accepted S) {coinbase : DomainTransaction}
    (hblock : m.blocks.lookup h = some block) (hbody : block.transactions = coinbase :: rest)
    (hcoinbase : isCoinBase coinbase = true) : ∀ tx ∈ accepted, tx.id ≠ coinbase.id := by
  intro tx htx hid
  have hsame := hs.ids tx coinbase (hledger.stored tx htx) ⟨h, block, hblock, by simp [hbody]⟩ hid
  have htxCoinbase : isCoinBase tx = true := by
    simpa [isCoinBase, hsame.subnetworkID] using hcoinbase
  have hlt := hledger.coinbases tx htx htxCoinbase
  rw [payloadBlueScore, hsame.payload, ← payloadBlueScore, hledger.own block coinbase rest hblock hbody] at hlt
  exact lt_irrefl _ hlt

end

/-! ## Validity -/

variable [AddCommGroup Multiset] [DecidableEq Digest]

/-- The successful way through `resolveSingleBlockStatus`. -/
inductive UTXOValid (m : UTXOManager Digest Multiset) :
    DomainHash → UTXOSet → Multiset → AcceptanceData → Prop
  | genesis : UTXOValid m m.genesisHash (fun _ => none) 0 []
  | block {blockHash selectedParent : DomainHash} {block : DomainBlock} {ghostdagData : BlockGHOSTDAGData}
      {S V : UTXOSet} {ms multiset : Multiset} {acceptance acceptanceData : AcceptanceData}
      {multisetStore : GoMap DomainHash Multiset} {selectedParentPastUTXO utxoDiff : MutableUTXODiff} :
      blockHash ≠ m.genesisHash →
      m.blocks.lookup blockHash = some block →
      m.ghostdagDataStore.data.lookup blockHash = some ghostdagData →
      ghostdagData.selectedParent = some selectedParent →
      UTXOValid m selectedParent S ms acceptance →
      V.Within (Created m) →
      selectedParentPastUTXO.IsDiff V S →
      multisetStore.lookup selectedParent = some ms →
      calculatePastUTXOAndAcceptanceData m V multisetStore blockHash selectedParentPastUTXO =
        .ok (utxoDiff, acceptanceData, multiset) →
      verifyUTXO m V block blockHash utxoDiff acceptanceData multiset = .ok () →
      UTXOValid m blockHash (utxoDiff.applyTo V) multiset acceptanceData

structure BlockStep (m : UTXOManager Digest Multiset) (blockHash selectedParent : DomainHash)
    (accepted : List DomainTransaction) (S : UTXOSet) (ms : Multiset) (acceptanceData : AcceptanceData)
    (accepted' : List DomainTransaction) (S' : UTXOSet) (multiset : Multiset) (daaScore : ℕ)
    (others : List DomainHash) (blocks : List (DomainHash × DomainBlock)) : Prop where
  score : m.daaScore.lookup blockHash = some daaScore
  run : RunBlocks m daaScore accepted S acceptanceData accepted' S'
  hashes : blocks.map Prod.fst = selectedParent :: others
  stored : ∀ block ∈ blocks, m.blocks.lookup block.1 = some block.2
  blocks : List.Forall₂ (fun (block : DomainHash × DomainBlock) (acceptance : BlockAcceptanceData) =>
    acceptance.blockHash = block.1 ∧
      acceptance.transactionAcceptanceData.map (·.transaction) = block.2.transactions) blocks acceptanceData
  plain : ∀ block ∈ acceptanceData.tail, NoCoinbase block
  multiset : multiset = addBlocksToMultiset m daaScore acceptanceData ms
  ledger : ChainLedger m blockHash accepted' S'

section
variable {g : Ghostdag.Manager} {dag : List Block} {m : UTXOManager Digest Multiset} {v : BlockValidator}
  (hs : SoundDag g dag m v)
include hs

variable {block : DomainBlock} {blockHash : DomainHash} {acceptanceData : AcceptanceData} {d : BlockGHOSTDAGData}
  {utxoDiff : MutableUTXODiff}

omit [AddCommGroup Multiset] in
theorem SoundDag.payload_of_verified {V : UTXOSet} {multiset : Multiset}
    (hblock : m.blocks.lookup blockHash = some block) (hd : m.ghostdagDataStore.data.lookup blockHash = some d)
    (h : verifyUTXO m V block blockHash utxoDiff acceptanceData multiset = .ok ()) :
    ∃ coinbase rest, block.transactions = coinbase :: rest ∧ payloadBlueScore coinbase = d.blueScore := by
  obtain ⟨coinbase, rest, coinbaseData, expected, hasRedReward, hbody, hexpected, -, hpayload⟩ :=
    verifyUTXO_coinbase hs.toSoundStore hblock hd h
  refine ⟨coinbase, rest, hbody, ?_⟩
  obtain ⟨daaAdded, -, hexpected⟩ := bind_eq_ok.mp hexpected
  obtain ⟨txOuts, -, hexpected⟩ := bind_eq_ok.mp hexpected
  obtain ⟨txOut, -, hexpected⟩ := bind_eq_ok.mp hexpected
  obtain ⟨subsidy, -, hexpected⟩ := bind_eq_ok.mp hexpected
  obtain ⟨payload, hserialize, hexpected⟩ := bind_eq_ok.mp hexpected
  cases hexpected
  rw [payloadBlueScore, hpayload]
  exact blueScore_of_serialize (hs.blueScore_lt hd) hserialize

/-- One chain block: what it accepts is executed on the ledger of its selected parent. -/
theorem SoundDag.block_step {selectedParent : DomainHash} {S V : UTXOSet} {ms multiset : Multiset}
    {multisetStore : GoMap DomainHash Multiset} {selectedParentPastUTXO : MutableUTXODiff}
    (hne : blockHash ≠ m.genesisHash) (hblock : m.blocks.lookup blockHash = some block)
    (hd : m.ghostdagDataStore.data.lookup blockHash = some d)
    (hsp : d.selectedParent = some selectedParent) (hV : V.Within (Created m))
    (hdiff : selectedParentPastUTXO.IsDiff V S) (hms : multisetStore.lookup selectedParent = some ms)
    (hpast : calculatePastUTXOAndAcceptanceData m V multisetStore blockHash selectedParentPastUTXO =
      .ok (utxoDiff, acceptanceData, multiset))
    (hverify : verifyUTXO m V block blockHash utxoDiff acceptanceData multiset = .ok ())
    {accepted : List DomainTransaction} (hledger : ChainLedger m selectedParent accepted S) :
    ∃ accepted' daaScore others blocks, BlockStep m blockHash selectedParent accepted S ms acceptanceData accepted'
      (utxoDiff.applyTo V) multiset daaScore others blocks ∧
      others.Perm (d.mergeSetBlues.tail ++ d.mergeSetReds) := by
  obtain ⟨b, hb, rfl, sp, hmerge⟩ := hs.recorded.mergeData_of hs.isDAG hd (hs.genesisHash ▸ hne)
  cases hsp.symm.trans hmerge.selectedParent
  obtain ⟨others, hsorted, hperm, -⟩ := getSortedMergeSet_eq hs.isDAG hs.recorded.knows hb hd hmerge
  -- What the calculation did.
  obtain ⟨d', hd', hpast⟩ := bind_eq_ok.mp hpast
  obtain rfl : d' = d := by
    have hget := mapError_eq_ok.mp hd'
    rw [get_eq hd] at hget
    exact (Except.ok.inj hget).symm
  obtain ⟨daaScore, hdaaScore, hpast⟩ := bind_eq_ok.mp hpast
  obtain ⟨⟨acceptanceData', utxoDiff'⟩, happly, hpast⟩ := bind_eq_ok.mp hpast
  obtain ⟨multiset', hmultiset, hpast⟩ := bind_eq_ok.mp hpast
  obtain ⟨hutxoDiff, hacceptance⟩ := Prod.mk.inj (Except.ok.inj hpast)
  obtain ⟨rfl, rfl⟩ := Prod.mk.inj hacceptance
  subst hutxoDiff
  obtain ⟨mergeSetHashes, hhashes, hfind⟩ := bind_eq_ok.mp happly
  obtain ⟨blocks, hblocks, hfold⟩ := bind_eq_ok.mp hfind
  cases (mapError_eq_ok.mp hhashes).symm.trans hsorted
  obtain ⟨hfst, hstored⟩ := findBlocks_ok hblocks
  obtain ⟨⟨h₀, block₀⟩, blocks, rfl⟩ : ∃ head tail, blocks = head :: tail := by
    cases blocks with
    | nil => simp at hfst
    | cons head tail => exact ⟨head, tail, rfl⟩
  obtain ⟨rfl, -⟩ := List.cons.inj hfst
  have hblock₀ := hstored (h₀, block₀) (by simp)
  obtain ⟨coinbase, rest, hbody, hcoinbase, hplain⟩ := (hs.validBody hblock₀).positions
  obtain ⟨acceptanceData'', d'', accepted', S', haccept, hdone, hnone, hjoined⟩ :=
    acceptBlocks_mergeSet hs.toSoundStore hV daaScore hledger.toLedger hdiff hstored hbody hplain
      (hs.coinbase_new hledger hblock₀ hbody hcoinbase)
  obtain ⟨rfl, rfl⟩ := Prod.mk.inj (Except.ok.inj (haccept.symm.trans hfold))
  have hmultisetEq : multiset' = addBlocksToMultiset m daaScore acceptanceData'' ms := by
    simp only [calculateMultiset, if_neg hne, hsp, hms, ok_bind] at hmultiset
    exact (Except.ok.inj hmultiset).symm
  obtain ⟨p, dp, hp, hdp, hlt⟩ := hs.selectedTree.parent b.hash d' hd hne
  obtain rfl := Option.some.inj (hp.symm.trans hsp)
  have hscore : score m.ghostdagDataStore p < score m.ghostdagDataStore b.hash := by
    rwa [score_eq hdp, score_eq hd]
  obtain ⟨own, ownRest, hown, hownScore⟩ := hs.payload_of_verified hblock hd hverify
  rw [hdone.diff.applyTo_eq]
  have hdaa : m.daaScore.lookup b.hash = some daaScore := by
    have hread := mapError_eq_ok.mp hdaaScore
    unfold CoinbaseManager.find at hread
    cases hlookup : m.daaScore.lookup b.hash with
    | none => simp [hlookup] at hread
    | some score =>
      rw [hlookup] at hread
      rw [Except.ok.inj hread]
  refine ⟨accepted', daaScore, others, _, ⟨hdaa, hdone.run, hfst, hstored, hdone.blocks, hnone, hmultisetEq,
    hdone.ledger, fun tx htx htxCoinbase => ?_, fun block' coinbase' rest' hblock' hbody' => ?_⟩, hperm⟩
  · rcases hjoined tx htx with hin | rfl | hnot
    · exact (hledger.coinbases tx hin htxCoinbase).trans hscore
    · rw [hledger.own block₀ tx rest hblock₀ hbody]
      exact hscore
    rw [htxCoinbase] at hnot
    cases hnot
  · cases hblock.symm.trans hblock'
    obtain ⟨rfl, -⟩ := List.cons.inj (hown.symm.trans hbody')
    rw [hownScore, score_eq hd]

omit [AddCommGroup Multiset] [DecidableEq Digest] in
theorem SoundDag.genesis_ledger : ChainLedger m m.genesisHash [] fun _ => none := by
  refine ⟨ledger_empty, by simp, fun block coinbase rest hblock hbody => ?_⟩
  obtain ⟨bits, rest', heq, -⟩ := hs.isDAG.genesis
  have hgenesis := hs.recorded.genesisData ⟨g.genesisHash, [], bits⟩ (by simp [heq]) rfl
  rw [hs.genesisPayload block coinbase rest hblock hbody, hs.genesisHash, score_eq hgenesis]

end

variable {h : DomainHash} {S : UTXOSet} {ms : Multiset} {acceptanceData : AcceptanceData} {block : DomainBlock}
  {g : Ghostdag.Manager} {dag : List Block} {m : UTXOManager Digest Multiset}
    {v : BlockValidator}

theorem UTXOValid.chainLedger (hs : SoundDag g dag m v) (hvalid : UTXOValid m h S ms acceptanceData) :
    ∃ accepted, ChainLedger m h accepted S := by
  induction hvalid with
  | genesis => exact ⟨[], hs.genesis_ledger⟩
  | block hne hblock hd hsp _ hV hdiff hms hpast hverify ih =>
    obtain ⟨accepted, hledger⟩ := ih
    obtain ⟨accepted', daaScore, others, blocks, hstep, -⟩ :=
      hs.block_step hne hblock hd hsp hV hdiff hms hpast hverify hledger
    exact ⟨accepted', hstep.ledger⟩

def pastUTXO (m : UTXOManager Digest Multiset) (S : UTXOSet) (ms : Multiset) (selectedParent blockHash : DomainHash) :
    MutableUTXODiff × AcceptanceData × Multiset :=
  (calculatePastUTXOAndAcceptanceData m S (AList.insert selectedParent ms ∅) blockHash .new).toOption.getD (.new, [], 0)

theorem UTXOValid.extend (hs : SoundDag g dag m v) {selectedParent blockHash : DomainHash}
    {d : BlockGHOSTDAGData} (hvalid : UTXOValid m selectedParent S ms acceptanceData)
    (hne : blockHash ≠ m.genesisHash) (hblock : m.blocks.lookup blockHash = some block)
    (hd : m.ghostdagDataStore.data.lookup blockHash = some d) (hsp : d.selectedParent = some selectedParent)
    (hcalculate : (calculatePastUTXOAndAcceptanceData m S (AList.insert selectedParent ms ∅) blockHash .new).isOk = true)
    (hverify : verifyUTXO m S block blockHash (pastUTXO m S ms selectedParent blockHash).1
      (pastUTXO m S ms selectedParent blockHash).2.1 (pastUTXO m S ms selectedParent blockHash).2.2 = .ok ()) :
    UTXOValid m blockHash ((pastUTXO m S ms selectedParent blockHash).1.applyTo S)
      (pastUTXO m S ms selectedParent blockHash).2.2 (pastUTXO m S ms selectedParent blockHash).2.1 := by
  obtain ⟨accepted, hledger⟩ := hvalid.chainLedger hs
  cases hpast : calculatePastUTXOAndAcceptanceData m S (AList.insert selectedParent ms ∅) blockHash .new with
  | error e =>
    rw [hpast] at hcalculate
    cases hcalculate
  | ok past =>
    have hresult : pastUTXO m S ms selectedParent blockHash = past := by
      rw [pastUTXO, hpast]
      rfl
    rw [hresult] at hverify ⊢
    exact .block hne hblock hd hsp hvalid hledger.within (isDiff_new S) (lookup_insert _) hpast hverify

/-! ## A small ledger

In the DAG of four blocks, blocks 2 and 3 have the same payment, which spends the output of genesis. Block 4
merges both and accepts the payment once. -/

def sampleScript : ScriptPublicKey := ⟨[0x51], 0⟩

def sampleCoinbase (id blueScore subsidy : ℕ) (values : List ℕ) : DomainTransaction :=
  ⟨0, [], values.map fun value => ⟨value, sampleScript⟩, 0, subnetworkIDCoinbase, 0,
    (serializeCoinbasePayload 150 blueScore ⟨sampleScript, [UInt8.ofNat id]⟩ subsidy).toOption.getD [], id⟩

def samplePayment : DomainTransaction :=
  ⟨0, [⟨⟨101, 0⟩, [], 0, 0⟩], [⟨690, sampleScript⟩], 0, subnetworkIDNative, 0, [], 110⟩

def sampleGenesis : DomainBlock := ⟨⟨0, 0, 0, 0, 0⟩, [sampleCoinbase 101 0 1000 [700]]⟩

def sampleSibling (id : ℕ) : DomainBlock := ⟨⟨0, 0, 0, 1, 1⟩, [sampleCoinbase id 1 500 [1000], samplePayment]⟩

def sampleMerge : DomainBlock := ⟨⟨0, 0, 0, 3, 3⟩, [sampleCoinbase 104 3 500 [510, 500]]⟩

def table {V : Type} (entries : List (DomainHash × V)) : GoMap DomainHash V :=
  entries.foldr (fun entry rest => rest.insert entry.1 entry.2) ∅

def sampleManager : UTXOManager DomainTransaction (FreeAbelianGroup (List UInt8)) where
  subsidyGenesisReward := 1000
  preDeflationaryPhaseBaseSubsidy := 500
  coinbasePayloadScriptPublicKeyMaxLength := 150
  genesisHash := 1
  deflationaryPhaseDaaScore := 1000000
  blocks := table [(1, sampleGenesis), (2, sampleSibling 102), (3, sampleSibling 103), (4, sampleMerge)]
  daaScore := table [(1, 0), (2, 1), (3, 1), (4, 3)]
  daaAddedBlocks := table [(1, []), (2, [1]), (3, [1]), (4, [2, 3])]
  ghostdagDataStore := diamondStores
  transactionValidator := ⟨0, false, 200, 10, 150, fun _ _ => 0, fun _ _ _ _ => .ok ()⟩
  transactionHash tx := { tx with id := 0 }
  calculateIDMerkleRoot _ := 0
  element := .of
  multisetHash _ := 0

def sampleValidator : BlockValidator :=
  ⟨⟨0, false, 200, 10, 150, fun _ _ => 0, fun _ _ _ _ => .ok ()⟩, 1000, fun _ => 0, fun _ => 1⟩

def sampleBodies : List DomainBlock := [sampleGenesis, sampleSibling 102, sampleSibling 103, sampleMerge]

theorem sample_block (hblock : sampleManager.blocks.lookup h = some block) : block ∈ sampleBodies := by
  simp only [sampleManager, table, List.foldr, GoMap.lookup_set, lookup_empty] at hblock
  split_ifs at hblock <;> cases hblock <;> simp [sampleBodies]

theorem sample_stored {tx : DomainTransaction} (htx : Stored sampleManager tx) :
    tx ∈ sampleBodies.flatMap DomainBlock.transactions := by
  obtain ⟨h, block, hblock, hmem⟩ := htx
  exact List.mem_flatMap.mpr ⟨block, sample_block hblock, hmem⟩

theorem sample_soundStore : SoundStore sampleManager sampleValidator where
  bodies h block hblock := by
    have hall : ∀ block ∈ sampleBodies, sampleValidator.validateBodyInIsolation block = .ok () := by decide +kernel
    exact hall block (sample_block hblock)
  ids tx tx' htx htx' hid := by
    have hall : ∀ tx ∈ sampleBodies.flatMap DomainBlock.transactions,
        ∀ tx' ∈ sampleBodies.flatMap DomainBlock.transactions, tx.id = tx'.id → tx = tx' := by decide +kernel
    obtain rfl := hall tx (sample_stored htx) tx' (sample_stored htx') hid
    exact ⟨rfl, rfl, rfl, rfl⟩
  digests tx tx' _ hdigest := by
    have houtputs := congrArg DomainTransaction.outputs hdigest
    have hpayload := congrArg DomainTransaction.payload hdigest
    exact ⟨houtputs, hpayload⟩
  id tx htx := by
    have hall : ∀ tx ∈ sampleBodies.flatMap DomainBlock.transactions, tx.id < 2 ^ 256 := by decide +kernel
    exact hall tx (sample_stored htx)
  outputs tx htx := by
    have hall : ∀ tx ∈ sampleBodies.flatMap DomainBlock.transactions, tx.outputs.length ≤ 2 ^ 32 := by decide +kernel
    exact hall tx (sample_stored htx)
  scripts tx htx := by
    have hall : ∀ tx ∈ sampleBodies.flatMap DomainBlock.transactions,
        ∀ output ∈ tx.outputs, output.scriptPublicKey.version < 2 ^ 16 ∧
          output.scriptPublicKey.script.length < 2 ^ 64 := by decide +kernel
    exact hall tx (sample_stored htx)
  daaScore h daaScore hscore := by
    simp only [sampleManager, table, List.foldr, GoMap.lookup_set, lookup_empty] at hscore
    split_ifs at hscore <;> cases hscore <;> decide

theorem sample_soundDag : SoundDag diamondManager diamond sampleManager sampleValidator where
  toSoundStore := sample_soundStore
  isDAG := (isDAG_of_checkDAG (by decide +kernel)).1
  recorded := diamond_recorded
  length := by decide
  genesisHash := rfl
  genesisPayload block coinbase rest hblock hbody := by
    obtain rfl : sampleGenesis = block := Option.some.inj hblock
    obtain ⟨rfl, -⟩ := List.cons.inj hbody
    decide +kernel

theorem sample_sibling : UTXOValid sampleManager 3
    ((pastUTXO sampleManager (fun _ => none) 0 1 3).1.applyTo fun _ => none)
    (pastUTXO sampleManager (fun _ => none) 0 1 3).2.2 (pastUTXO sampleManager (fun _ => none) 0 1 3).2.1 :=
  UTXOValid.genesis.extend sample_soundDag (by decide)
    (show sampleManager.blocks.lookup 3 = some (sampleSibling 103) from rfl) rfl (by decide +kernel)
    (by decide +kernel) (by decide +kernel)

theorem sample_valid : ∃ S ms acceptanceData, UTXOValid sampleManager 4 S ms acceptanceData := by
  have hfour : UTXOValid sampleManager 4 _ _ _ := sample_sibling.extend sample_soundDag (by decide)
    (show sampleManager.blocks.lookup 4 = some sampleMerge from rfl) rfl (by decide +kernel) (by decide +kernel)
    (by decide +kernel)
  exact ⟨_, _, _, hfour⟩

end Kaspad.ConsensusState
