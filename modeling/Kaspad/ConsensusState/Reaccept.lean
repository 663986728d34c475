import Kaspad.ConsensusState.ImportPruningPoint
import Kaspad.ConsensusState.UTXOValid

/-! # A block that is accepted a second time

What accepting the transactions of one block does to a UTXO diff, outpoint by outpoint. In a block without
double spends and chained transactions an outpoint is touched by one transaction at most, so accepting the
block again over the reverse of its own diff cancels that diff wherever it accepts, and leaves the reverse
elsewhere: either way the result is the UTXO set from before the block.
-/

namespace Kaspad
open Lib List GoMap AList

namespace MutableUTXODiff
variable {d d' : MutableUTXODiff} {o : DomainOutpoint} {e : UTXOEntry}

def spent (p : Patch UTXOEntry) (e : UTXOEntry) : Patch UTXOEntry :=
  if p.add.any fun e' => e'.blockDAAScore == e.blockDAAScore then { p with add := none }
  else { p with remove := some e }

def created (p : Patch UTXOEntry) (e : UTXOEntry) : Patch UTXOEntry :=
  if p.remove.any fun e' => e'.blockDAAScore == e.blockDAAScore then { p with remove := none }
  else { p with add := some e }

theorem containsWithDAAScore_any (uc : UTXOCollection) (o : DomainOutpoint) (daaScore : ℕ) :
    uc.containsWithDAAScore o daaScore = (uc.lookup o).any fun e => e.blockDAAScore == daaScore := by
  unfold UTXOCollection.containsWithDAAScore
  cases uc.lookup o <;> rfl

theorem removeEntry_patchAt (h : d.removeEntry o e = .ok d') (o' : DomainOutpoint) :
    d'.patchAt o' = if o' = o then spent (d.patchAt o) e else d.patchAt o' := by
  unfold removeEntry at h
  rw [containsWithDAAScore_any] at h
  split_ifs at h with hadd hremove <;> obtain rfl := Except.ok.inj h
  · obtain rfl | ho := eq_or_ne o' o
    · simp [patchAt, spent, hadd, UTXOCollection.remove]
    · simp [patchAt, ho, UTXOCollection.remove]
  obtain rfl | ho := eq_or_ne o' o
  · simp [patchAt, spent, hadd, UTXOCollection.add]
  · simp [patchAt, ho, UTXOCollection.add]

theorem addEntry_patchAt (h : d.addEntry o e = .ok d') (o' : DomainOutpoint) :
    d'.patchAt o' = if o' = o then created (d.patchAt o) e else d.patchAt o' := by
  unfold addEntry at h
  rw [containsWithDAAScore_any] at h
  split_ifs at h with hremove hadd <;> obtain rfl := Except.ok.inj h
  · obtain rfl | ho := eq_or_ne o' o
    · simp [patchAt, created, hremove, UTXOCollection.remove]
    · simp [patchAt, ho, UTXOCollection.remove]
  obtain rfl | ho := eq_or_ne o' o
  · simp [patchAt, created, hremove, UTXOCollection.add]
  · simp [patchAt, ho, UTXOCollection.add]

theorem loop_patchAt {step : MutableUTXODiff → DomainOutpoint → UTXOEntry → Except DiffError MutableUTXODiff}
    (loop : List (DomainOutpoint × UTXOEntry) → MutableUTXODiff → Except DiffError MutableUTXODiff)
    {change : Patch UTXOEntry → UTXOEntry → Patch UTXOEntry}
    (hnil : ∀ d, loop [] d = .ok d) (hcons : ∀ o e l d, loop ((o, e) :: l) d = step d o e >>= loop l)
    (hstep : ∀ {d d' o e}, step d o e = .ok d' →
      ∀ o', d'.patchAt o' = if o' = o then change (d.patchAt o) e else d.patchAt o')
    {l : List (DomainOutpoint × UTXOEntry)} (hl : (l.map Prod.fst).Nodup) (h : loop l d = .ok d')
    (o : DomainOutpoint) : (o ∉ l.map Prod.fst → d'.patchAt o = d.patchAt o) ∧
      ∀ e, (o, e) ∈ l → d'.patchAt o = change (d.patchAt o) e := by
  induction l generalizing d with
  | nil =>
    cases (hnil d).symm.trans h
    simp
  | cons x l ih =>
    obtain ⟨o₁, e₁⟩ := x
    rw [hcons] at h
    obtain ⟨d₁, h₁, h⟩ := bind_eq_ok.mp h
    obtain ⟨hne, hl⟩ := nodup_cons.mp hl
    obtain ⟨helse, hat⟩ := ih hl h
    refine ⟨fun ho => ?_, fun e he => ?_⟩
    · have ho' : o ≠ o₁ ∧ o ∉ l.map Prod.fst := by simpa [not_or] using ho
      rw [helse ho'.2, hstep h₁, if_neg ho'.1]
    obtain heq | he := mem_cons.mp he
    · cases heq
      rw [helse hne, hstep h₁, if_pos rfl]
    have ho : o ≠ o₁ := fun heq => hne (mem_map.mpr ⟨(o, e), he, heq⟩)
    rw [hat e he, hstep h₁, if_neg ho]

end MutableUTXODiff

namespace ConsensusState
open MutableUTXODiff BlockValidator

/-! ## One transaction -/

def touched (blockDAAScore : ℕ) (tx : DomainTransaction) : List DomainOutpoint :=
  tx.outpoints ++ (outputEntries tx (isCoinBase tx) blockDAAScore).map Prod.fst

inductive Moved (S : UTXOSet) (txs : List DomainTransaction) (blockDAAScore : ℕ) (o : DomainOutpoint)
    (p : Patch UTXOEntry) : Patch UTXOEntry → Prop
  | same : Moved S txs blockDAAScore o p p
  | spent {e : UTXOEntry} (h : p.apply (S o) = some e) : Moved S txs blockDAAScore o p (spent p e)
  | created {tx : DomainTransaction} {e : UTXOEntry} (htx : tx ∈ txs)
      (h : (o, e) ∈ outputEntries tx (isCoinBase tx) blockDAAScore) :
      Moved S txs blockDAAScore o p (created p e)

variable {Digest Multiset : Type} {m : UTXOManager Digest Multiset} {S : UTXOSet} {isSelectedParent : Bool}
  {daaScore : ℕ} {d d' : MutableUTXODiff}
  {txs : List DomainTransaction} {tx : DomainTransaction} {acceptances : List TransactionAcceptanceData}

theorem Moved.mono {txs' : List DomainTransaction} {o : DomainOutpoint} {p p' : Patch UTXOEntry}
    (h : Moved S txs daaScore o p p') (hsub : ∀ tx ∈ txs, tx ∈ txs') : Moved S txs' daaScore o p p' := by
  cases h with
  | same => exact .same
  | spent h => exact .spent h
  | created htx h => exact .created (hsub _ htx) h

theorem addTransaction_moved {entries : List UTXOEntry} (hnodup : (touched daaScore tx).Nodup)
    (hlen : tx.outpoints.length = entries.length)
    (hentries : ∀ input ∈ tx.outpoints.zip entries, d.applyTo S input.1 = some input.2)
    (h : d.addTransaction tx entries daaScore = .ok d') (o : DomainOutpoint) :
    (o ∉ touched daaScore tx → d'.patchAt o = d.patchAt o) ∧
      Moved S [tx] daaScore o (d.patchAt o) (d'.patchAt o) := by
  obtain ⟨hinputs, houtputs, hdisjoint⟩ := nodup_append.mp hnodup
  obtain ⟨d₁, h₁, h₂⟩ := bind_eq_ok.mp h
  have hzip := map_fst_zip hlen.le
  obtain ⟨helse, hat⟩ := loop_patchAt removeEntries (fun _ => rfl) (fun _ _ _ _ => rfl)
    removeEntry_patchAt (hzip.symm ▸ hinputs) h₁ o
  obtain ⟨helse', hat'⟩ := loop_patchAt addEntries (fun _ => rfl) (fun _ _ _ _ => rfl) addEntry_patchAt houtputs h₂ o
  rw [hzip] at helse
  refine ⟨fun ho => ?_, ?_⟩
  · obtain ⟨hnotIn, hnotOut⟩ := not_or.mp (fun h => ho (mem_append.mpr h))
    rw [helse' hnotOut, helse hnotIn]
  by_cases hin : o ∈ tx.outpoints
  · obtain ⟨e, he⟩ := exists_mem_zip_left hlen hin
    have hnotOut : o ∉ (outputEntries tx (isCoinBase tx) daaScore).map Prod.fst :=
      fun hout => hdisjoint o hin o hout rfl
    rw [helse' hnotOut, hat e he]
    exact .spent ((applyTo_at d S o).symm.trans (hentries _ he))
  by_cases hout : o ∈ (outputEntries tx (isCoinBase tx) daaScore).map Prod.fst
  · obtain ⟨⟨o', e⟩, he, rfl⟩ := mem_map.mp hout
    rw [hat' e he, helse hin]
    exact .created mem_cons_self he
  · rw [helse' hout, helse hin]
    exact .same

theorem maybeAcceptTransaction_moved {acceptance : TransactionAcceptanceData} (hnodup : (touched daaScore tx).Nodup)
    (h : maybeAcceptTransaction m S isSelectedParent daaScore tx d = .ok (acceptance, d')) (o : DomainOutpoint) :
    (o ∉ touched daaScore tx → d'.patchAt o = d.patchAt o) ∧
      Moved S [tx] daaScore o (d.patchAt o) (d'.patchAt o) := by
  by_cases hsame : d' = d
  · subst hsame
    exact ⟨fun _ => rfl, .same⟩
  unfold maybeAcceptTransaction at h
  split at h
  · exact absurd (Prod.mk.inj (Except.ok.inj h)).2.symm hsame
  next entries hpopulate =>
  obtain ⟨hlen, hentries⟩ := populate_spec rfl hpopulate
  split_ifs at h
  · exact absurd (Prod.mk.inj (Except.ok.inj h)).2.symm hsame
  on_goal 2 =>
    split at h
    · exact absurd (Prod.mk.inj (Except.ok.inj h)).2.symm hsame
  all_goals
    obtain ⟨d₁, h₁, h⟩ := bind_eq_ok.mp h
    cases h
    exact addTransaction_moved hnodup hlen hentries (mapError_eq_ok.mp h₁) o

theorem acceptTransactions_moved (hnodup : (txs.flatMap (touched daaScore)).Nodup)
    (h : acceptTransactions m S isSelectedParent daaScore txs d = .ok (acceptances, d')) (o : DomainOutpoint) :
    (o ∉ txs.flatMap (touched daaScore) → d'.patchAt o = d.patchAt o) ∧
      Moved S txs daaScore o (d.patchAt o) (d'.patchAt o) := by
  induction txs generalizing d acceptances with
  | nil =>
    cases h
    exact ⟨fun _ => rfl, .same⟩
  | cons tx txs ih =>
    rw [flatMap_cons] at hnodup ⊢
    obtain ⟨htx, htxs, hdisjoint⟩ := nodup_append.mp hnodup
    obtain ⟨⟨acceptance, d₁⟩, h₁, h⟩ := bind_eq_ok.mp h
    obtain ⟨⟨acceptances', d₂⟩, h₂, h⟩ := bind_eq_ok.mp h
    cases h
    obtain ⟨helse, hmoved⟩ := maybeAcceptTransaction_moved htx h₁ o
    obtain ⟨helse', hmoved'⟩ := ih htxs h₂
    refine ⟨fun ho => ?_, ?_⟩
    · obtain ⟨hnot, hnot'⟩ := not_or.mp fun h => ho (mem_append.mpr h)
      rw [helse' hnot', helse hnot]
    by_cases ho : o ∈ touched daaScore tx
    · rw [helse' fun ho' => hdisjoint o ho o ho' rfl]
      exact hmoved.mono fun tx' htx' => mem_singleton.mp htx' ▸ mem_cons_self
    rw [helse ho] at hmoved'
    exact hmoved'.mono fun tx' htx' => mem_cons_of_mem _ htx'

theorem nodup_touched (hbody : DistinctBody txs) (hcount : ∀ tx ∈ txs, tx.outputs.length ≤ 2 ^ 32)
    (blockDAAScore : ℕ) : (txs.flatMap (touched blockDAAScore)).Nodup := by
  have hid : ∀ {tx : DomainTransaction} {o : DomainOutpoint},
      o ∈ (outputEntries tx (isCoinBase tx) blockDAAScore).map Prod.fst → o.transactionID = tx.id := by
    intro tx o ho
    obtain ⟨⟨o', e⟩, he, rfl⟩ := mem_map.mp ho
    exact (mem_outputEntries he).1
  have hspends := nodup_flatMap.mp hbody.spends
  have hids := pairwise_map.mp hbody.ids
  rw [nodup_flatMap]
  refine ⟨fun tx htx => ?_, (hspends.2.and hids).imp_of_mem fun {tx tx'} htx htx' hne => ?_⟩
  · refine nodup_append.mpr ⟨hspends.1 tx htx, nodup_outputEntries (hcount tx htx), ?_⟩
    rintro o ho o' ho' rfl
    exact hbody.unchained tx htx o ho tx htx (hid ho').symm
  intro o ho ho'
  obtain ho | ho := mem_append.mp ho <;> obtain ho' | ho' := mem_append.mp ho'
  · exact hne.1 ho ho'
  · exact hbody.unchained tx htx o ho tx' htx' (hid ho').symm
  · exact hbody.unchained tx' htx' o ho' tx htx (hid ho).symm
  · exact hne.2 ((hid ho).symm.trans (hid ho'))

/-- Accepted again over its own reverse, a block gives the same set only if it changes nothing. -/
theorem reaccept_empty {acceptances' : List TransactionAcceptanceData} {V R V' : MutableUTXODiff}
    (hnodup : (txs.flatMap (touched daaScore)).Nodup)
    (hfresh : ∀ tx ∈ txs, ∀ output ∈ outputEntries tx (isCoinBase tx) daaScore, S output.1 = none)
    (h : acceptTransactions m S isSelectedParent daaScore txs .new = .ok (acceptances, V))
    (hR : ∀ o, R.patchAt o = (V.patchAt o).swap)
    (h' : acceptTransactions m S isSelectedParent daaScore txs R = .ok (acceptances', V'))
    (heq : V'.applyTo S = V.applyTo S) (o : DomainOutpoint) : V.patchAt o = ⟨none, none⟩ := by
  have hsame : (V'.patchAt o).apply (S o) = (V.patchAt o).apply (S o) := by
    rw [← applyTo_at, ← applyTo_at, heq]
  have hmoved := (acceptTransactions_moved hnodup h o).2
  have hmoved' := (acceptTransactions_moved hnodup h' o).2
  have hnew : MutableUTXODiff.new.patchAt o = ⟨none, none⟩ := rfl
  rw [hnew] at hmoved
  rw [hR o] at hmoved'
  generalize V.patchAt o = p at hmoved hmoved' hsame ⊢
  generalize V'.patchAt o = p' at hmoved' hsame
  cases hmoved with
  | same => rfl
  | @spent e he =>
    -- The block spends the entry; over the reverse it is there, spent or not.
    have hSo : S o = some e := he
    cases hmoved' with
    | same => simp [spent, Patch.swap, Patch.apply] at hsame
    | @spent e' he' =>
      obtain rfl : e = e' := by simpa [spent, Patch.swap, Patch.apply] using he'
      simp [spent, Patch.swap, Patch.apply, hSo] at hsame
    | created htx hout =>
      have hnone := hfresh _ htx _ hout
      rw [hSo] at hnone
      cases hnone
  | @created tx e htx hout =>
    -- The block creates the entry; over the reverse it is not there, created or not.
    have hSo := hfresh tx htx _ hout
    cases hmoved' with
    | same => simp [created, Patch.swap, Patch.apply] at hsame
    | spent he' => simp [created, Patch.swap, Patch.apply] at he'
    | @created tx' e' htx' hout' =>
      have hscore := (mem_outputEntries hout).2.2.1.trans (mem_outputEntries hout').2.2.1.symm
      simp [created, Patch.swap, Patch.apply, hscore, hSo] at hsame

/-! ## The second update of the virtual block -/

theorem diffFrom_new_patchAt {V R : MutableUTXODiff} (h : diffFrom V .new = .ok R) (o : DomainOutpoint) :
    R.patchAt o = (V.patchAt o).swap := by
  have hnone : ∀ (o : DomainOutpoint) (daaScore : ℕ),
      (∅ : UTXOCollection).containsWithDAAScore o daaScore = false := fun _ _ => rfl
  unfold diffFrom at h
  split at h
  · cases h
  split at h
  · cases h
  split at h
  · cases h
  simp only [subtractionWithRemainderHavingDAAScore, subtractionHavingDAAScore] at h
  obtain ⟨-, h⟩ | ⟨-, h⟩ := ite_eq_iff.mp h
  · cases h
  cases h
  simp only [patchAt, Patch.swap, MutableUTXODiff.new, lookup_addWhere, hnone, lookup_empty]
  cases V.toAdd.lookup o <;> cases V.toRemove.lookup o <;> rfl

theorem withDiffInPlace_new_patchAt {R R' : MutableUTXODiff} (h : withDiffInPlace .new R = .ok R')
    {o : DomainOutpoint} (hone : R.toAdd.lookup o = none ∨ R.toRemove.lookup o = none) :
    R'.patchAt o = R.patchAt o := by
  have hnone : ∀ (o : DomainOutpoint) (daaScore : ℕ),
      (∅ : UTXOCollection).containsWithDAAScore o daaScore = false := fun _ _ => rfl
  unfold withDiffInPlace at h
  split at h
  · cases h
  split at h
  · cases h
  cases h
  simp only [patchAt, MutableUTXODiff.new, UTXOCollection.removeMultiple, lookup_addWhere,
    lookup_eraseKeys, hnone, lookup_empty, containsWithDAAScore_any]
  obtain hone | hone := hone
  · rw [hone]
    cases R.toRemove.lookup o <;> simp
  rw [hone]
  cases R.toAdd.lookup o <;> simp

theorem eq_new_of_patchAt {V R : MutableUTXODiff} (h : diffFrom V .new = .ok R)
    (hempty : ∀ o, V.patchAt o = ⟨none, none⟩) : R = .new := by
  have hpatch : ∀ o, R.patchAt o = ⟨none, none⟩ := fun o => by rw [diffFrom_new_patchAt h, hempty]; rfl
  have hentries : ∀ uc : UTXOCollection, (∀ o, uc.lookup o = none) → uc = ∅ := by
    intro uc huc
    refine AList.ext (eq_nil_iff_forall_not_mem.mpr fun e he => ?_)
    have hsome := (mem_entries_iff uc e).mp he
    rw [huc] at hsome
    cases hsome
  have hadd := hentries R.toAdd fun o => congrArg Patch.add (hpatch o)
  have hremove := hentries R.toRemove fun o => congrArg Patch.remove (hpatch o)
  obtain ⟨toAdd, toRemove⟩ := R
  cases hadd
  cases hremove
  rfl

/-- What the import has committed: the virtual block merges the pruning point only, which has an empty diff. -/
structure Imported (csm : ConsensusStateManager Digest Multiset) (v : BlockValidator) (d : ImportDatabase)
    (pruningPoint : DomainHash) (block : DomainBlock) : Prop where
  virtual : ∃ data, csm.ghostdagDataStore.get (some Traversal.virtualBlockHash) false = .ok data ∧
    data.selectedParent = some pruningPoint
  mergeSet : Ghostdag.getSortedMergeSet csm.ghostdagDataStore Traversal.virtualBlockHash = .ok [pruningPoint]
  child : csm.utxoDiffChildStore.lookup pruningPoint = none
  diff : d.utxoDiffStore.lookup pruningPoint = some .new
  stored : csm.blocks.lookup pruningPoint = some block
  body : v.validateBodyInIsolation block = .ok ()
  count : ∀ tx ∈ block.transactions, tx.outputs.length ≤ 2 ^ 32
  fresh : ∀ tx ∈ block.transactions, ∀ o : DomainOutpoint, o.transactionID = tx.id →
    d.importedPruningPointUTXOs.lookup o = none

section
variable [AddCommGroup Multiset] {csm : ConsensusStateManager Digest Multiset} {v : BlockValidator}
  {pruningPoint : DomainHash} {block : DomainBlock}

theorem updateVirtual_ok {S : UTXOSet} {utxoDiffs : Lib.GoMap DomainHash MutableUTXODiff} {u : VirtualUpdate}
    (hvirtual : ∃ data, csm.ghostdagDataStore.get (some Traversal.virtualBlockHash) false = .ok data ∧
      data.selectedParent = some pruningPoint)
    (hmergeSet : Ghostdag.getSortedMergeSet csm.ghostdagDataStore Traversal.virtualBlockHash = .ok [pruningPoint])
    (hchild : csm.utxoDiffChildStore.lookup pruningPoint = none)
    (hblock : csm.blocks.lookup pruningPoint = some block) (h : updateVirtual csm S utxoDiffs = .ok u) :
    ∃ diff past daaScore acceptances, u.selectedTip = pruningPoint ∧ utxoDiffs.lookup pruningPoint = some diff ∧
      withDiffInPlace .new diff = .ok past ∧
      CoinbaseManager.find csm.daaScore Traversal.virtualBlockHash = .ok daaScore ∧
      acceptTransactions csm.toUTXOManager S true daaScore block.transactions past =
        .ok (acceptances, u.virtualUTXODiff) ∧ diffFrom u.virtualUTXODiff diff = .ok u.newDiff := by
  obtain ⟨data, hdata, hparent⟩ := hvirtual
  obtain ⟨data', hdata', h⟩ := bind_eq_ok.mp h
  obtain rfl : data = data' := Except.ok.inj (hdata.symm.trans (mapError_eq_ok.mp hdata'))
  simp only [hparent] at h
  obtain ⟨past, hpast, h⟩ := bind_eq_ok.mp h
  obtain ⟨⟨virtualUTXODiff, acceptanceData, multiset⟩, hcalculate, h⟩ := bind_eq_ok.mp h
  cases hdiff : utxoDiffs.lookup pruningPoint with
  | none =>
    simp only [hdiff] at h
    cases h
  | some diff =>
    simp only [hdiff] at h
    obtain ⟨newDiff, hnewDiff, h⟩ := bind_eq_ok.mp h
    cases h
    -- No diff child: the past UTXO of the pruning point is its own diff.
    obtain ⟨collected, hcollected, hfold⟩ := bind_eq_ok.mp (mapError_eq_ok.mp hpast)
    simp only [collectUTXODiffs, hdiff, hchild] at hcollected
    cases hcollected
    obtain ⟨past', hpast', hdone⟩ := bind_eq_ok.mp (mapError_eq_ok.mp hfold)
    obtain rfl : past' = past := Except.ok.inj hdone
    -- The merge set is the pruning point.
    obtain ⟨_, -, hcalculate⟩ := bind_eq_ok.mp (mapError_eq_ok.mp hcalculate)
    obtain ⟨daaScore, hdaaScore, hcalculate⟩ := bind_eq_ok.mp hcalculate
    obtain ⟨⟨acceptanceData', utxoDiff⟩, happly, hcalculate⟩ := bind_eq_ok.mp hcalculate
    obtain ⟨multiset', -, hcalculate⟩ := bind_eq_ok.mp hcalculate
    cases hcalculate
    unfold applyMergeSetBlocks at happly
    rw [hmergeSet] at happly
    obtain ⟨hashes, hhashes, happly⟩ := bind_eq_ok.mp happly
    obtain rfl : [pruningPoint] = hashes := Except.ok.inj hhashes
    obtain ⟨blocks, hblocks, happly⟩ := bind_eq_ok.mp happly
    simp only [findBlocks, hblock] at hblocks
    obtain rfl : [(pruningPoint, block)] = blocks := Except.ok.inj hblocks
    obtain ⟨⟨acceptances, d₁⟩, haccept, happly⟩ := bind_eq_ok.mp happly
    cases happly
    exact ⟨diff, past', daaScore, acceptances, rfl, rfl, hpast', mapError_eq_ok.mp hdaaScore, haccept,
      mapError_eq_ok.mp hnewDiff⟩

theorem Imported.unchanged {d : ImportDatabase} (h : Imported csm v d pruningPoint block) {u u' : VirtualUpdate}
    (hu : importUpdate csm d = .ok u) (hu' : importUpdate csm (u.commit d.refilled) = .ok u')
    (heq : (u'.virtualUTXODiff.applyTo fun o => d.importedPruningPointUTXOs.lookup o) =
      u.virtualUTXODiff.applyTo fun o => d.importedPruningPointUTXOs.lookup o) : u.newDiff = .new := by
  obtain ⟨diff, past, daaScore, acceptances, htip, hdiff, hpast, hscore, haccept, hnewDiff⟩ :=
    updateVirtual_ok h.virtual h.mergeSet h.child h.stored hu
  obtain ⟨diff', past', daaScore', acceptances', -, hdiff', hpast', hscore', haccept', -⟩ :=
    updateVirtual_ok h.virtual h.mergeSet h.child h.stored hu'
  obtain rfl : .new = diff := Option.some.inj (h.diff.symm.trans hdiff)
  obtain rfl : .new = past := Except.ok.inj hpast
  obtain rfl : daaScore = daaScore' := Except.ok.inj (hscore.symm.trans hscore')
  have hstored : (u.commit d.refilled).utxoDiffStore.lookup pruningPoint = some u.newDiff := by
    change (d.utxoDiffStore.insert u.selectedTip u.newDiff).lookup pruningPoint = _
    rw [htip]
    exact lookup_insert _
  obtain rfl : u.newDiff = diff' := Option.some.inj (hstored.symm.trans hdiff')
  have hnodup := nodup_touched (v.distinctBody h.body) h.count daaScore
  have hfresh : ∀ tx ∈ block.transactions, ∀ output ∈ outputEntries tx (isCoinBase tx) daaScore,
      d.importedPruningPointUTXOs.lookup output.1 = none :=
    fun tx htx output hout => h.fresh tx htx output.1 (mem_outputEntries hout).1
  -- At most one of the two collections has an outpoint, so the restored diff is the stored one.
  have hpast : ∀ o, past'.patchAt o = (u.virtualUTXODiff.patchAt o).swap := by
    intro o
    rw [← diffFrom_new_patchAt hnewDiff]
    refine withDiffInPlace_new_patchAt hpast' ?_
    have hswap := diffFrom_new_patchAt hnewDiff o
    have hmoved := (acceptTransactions_moved hnodup haccept o).2
    have hadd : u.newDiff.toAdd.lookup o = (u.virtualUTXODiff.patchAt o).remove := congrArg Patch.add hswap
    have hremove : u.newDiff.toRemove.lookup o = (u.virtualUTXODiff.patchAt o).add := congrArg Patch.remove hswap
    rw [hadd, hremove]
    have hnew : MutableUTXODiff.new.patchAt o = ⟨none, none⟩ := rfl
    rw [hnew] at hmoved
    generalize u.virtualUTXODiff.patchAt o = p at hmoved ⊢
    cases hmoved with
    | same => exact .inl rfl
    | spent h => exact .inr rfl
    | created htx h => exact .inl rfl
  exact eq_new_of_patchAt hnewDiff (reaccept_empty hnodup hfresh haccept hpast haccept' heq)

open OnDisk

/-- Recovery ends as the uninterrupted run exactly where the flag is cleared or the diff of the pruning point is still
the empty one of the first commit. -/
theorem recoverUTXOIfRequired_iff {d d' : ImportDatabase} (hd : Imported csm v d pruningPoint block)
    (hflag : d.importingPruningPointUTXOSet = true)
    (h : Stops (importVirtualUTXOSetAndPruningPointUTXOSet csm) d d') :
    ((recoverUTXOIfRequired csm).final d').Same ((importVirtualUTXOSetAndPruningPointUTXOSet csm).final d) ↔
      d'.importingPruningPointUTXOSet = false ∨ d'.utxoDiffStore.lookup pruningPoint = some .new := by
  rw [recovers_iff hflag h]
  constructor
  · rintro (hcleared | hstore | ⟨u', hu', hvirtual, -⟩)
    · exact .inl hcleared
    · exact .inr ((hstore pruningPoint).trans hd.diff)
    obtain hkept | ⟨u, hu, rfl | rfl⟩ := import_stops hflag h
    · exact .inr (hkept.utxoDiffStore ▸ hd.diff)
    · obtain ⟨_, _, _, _, htip, -⟩ := updateVirtual_ok hd.virtual hd.mergeSet hd.child hd.stored hu
      have hnew := hd.unchanged hu hu' (hvirtual.trans (commit_refilled_lookup u d))
      right
      change (d.utxoDiffStore.insert u.selectedTip u.newDiff).lookup pruningPoint = _
      rw [htip, hnew]
      exact lookup_insert _
    · exact .inl rfl
  rintro (hcleared | hnew)
  · exact .inl hcleared
  obtain hkept | ⟨u, hu, rfl | rfl⟩ := import_stops hflag h
  · exact .inr (.inl (hkept.utxoDiffStore ▸ .refl _))
  · obtain ⟨_, _, _, _, htip, -⟩ := updateVirtual_ok hd.virtual hd.mergeSet hd.child hd.stored hu
    refine .inr (.inl fun h => ?_)
    change (d.utxoDiffStore.insert u.selectedTip u.newDiff).lookup pruningPoint = _ at hnew
    change (d.utxoDiffStore.insert u.selectedTip u.newDiff).lookup h = _
    rw [htip, lookup_insert] at hnew
    rw [htip, lookup_set, hnew]
    split_ifs with heq
    · rw [heq, hd.diff]
    · rfl
  · exact .inl rfl

end

/-! ## A pruning point with a coinbase transaction and a payment -/

def importSampleManager : ConsensusStateManager DomainTransaction ℤ where
  subsidyGenesisReward := 1000
  preDeflationaryPhaseBaseSubsidy := 500
  coinbasePayloadScriptPublicKeyMaxLength := 150
  genesisHash := 1
  deflationaryPhaseDaaScore := 1000000
  blocks := table [(2, sampleSibling 102)]
  daaScore := table [(2, 1), (Traversal.virtualBlockHash, 2)]
  daaAddedBlocks := ∅
  ghostdagDataStore := ⟨∅, ∅, table [(Traversal.virtualBlockHash, ⟨2, 20, some 2, [2], [], ∅⟩)], ∅⟩
  transactionValidator := ⟨0, false, 200, 10, 150, fun _ _ => 0, fun _ _ _ _ => .ok ()⟩
  transactionHash tx := tx
  calculateIDMerkleRoot _ := 0
  element _ := 1
  multisetHash _ := 0
  multisetStore := table [(2, 0)]
  utxoDiffChildStore := ∅

def importSampleDatabase : ImportDatabase where
  virtualUTXOSet := ∅
  pruningPointUTXOSet := ∅
  importedPruningPointUTXOs := AList.insert ⟨101, 0⟩ ⟨700, sampleScript, 0, false⟩ ∅
  utxoDiffStore := table [(2, .new)]
  importingPruningPointUTXOSet := true

def importSampleStop : ImportDatabase :=
  ((importVirtualUTXOSetAndPruningPointUTXOSet importSampleManager) importSampleDatabase).1.dropLast.getLastD
    importSampleDatabase

theorem importSample_imported :
    Imported importSampleManager sampleValidator importSampleDatabase 2 (sampleSibling 102) where
  virtual := ⟨_, rfl, rfl⟩
  mergeSet := rfl
  child := rfl
  diff := rfl
  stored := rfl
  body := by decide +kernel
  count := by decide +kernel
  fresh := by
    have hids : ∀ tx ∈ (sampleSibling 102).transactions, tx.id ≠ 101 := by decide +kernel
    intro tx htx o ho
    have hne : o ≠ ⟨101, 0⟩ := by
      rintro rfl
      exact hids tx htx ho.symm
    exact (lookup_set _ _ o _).trans (if_neg hne)

theorem recoverUTXOIfRequired_iff_importSample :
    ((recoverUTXOIfRequired importSampleManager).final importSampleStop).Same
        ((importVirtualUTXOSetAndPruningPointUTXOSet importSampleManager).final importSampleDatabase) ↔
      importSampleStop.importingPruningPointUTXOSet = false ∨ importSampleStop.utxoDiffStore.lookup 2 = some .new :=
  recoverUTXOIfRequired_iff importSample_imported rfl (OnDisk.stops_dropLast _ _)

/-- After the recovery the coinbase output of the pruning point is gone and the entry that was spent is back. -/
theorem recovery_drops_pruning_point_transactions :
    (importVirtualUTXOSetAndPruningPointUTXOSet importSampleManager).Stops importSampleDatabase importSampleStop ∧
      (recoverUTXOIfRequired importSampleManager).answer importSampleStop = .ok () ∧
      (((importVirtualUTXOSetAndPruningPointUTXOSet importSampleManager).final
          importSampleDatabase).virtualUTXOSet.lookup ⟨102, 0⟩).isSome ∧
      ((importVirtualUTXOSetAndPruningPointUTXOSet importSampleManager).final
          importSampleDatabase).virtualUTXOSet.lookup ⟨101, 0⟩ = none ∧
      ((recoverUTXOIfRequired importSampleManager).final importSampleStop).virtualUTXOSet.lookup ⟨102, 0⟩ = none ∧
      (((recoverUTXOIfRequired importSampleManager).final importSampleStop).virtualUTXOSet.lookup ⟨101, 0⟩).isSome :=
  ⟨OnDisk.stops_dropLast _ _, by decide +kernel⟩

end ConsensusState
end Kaspad
