import Kaspad.Lib.Pieces
import Kaspad.Wallet.Delivery

/-! # What a split transaction spends

The inputs of the transactions that `maybeSplitAndMergeTransaction` returns. The splits of a transaction spend
its inputs, each once. A merge transaction spends the outputs of the splits and, where the fees leave too little,
additional outputs of the wallet, which are only compared with the outputs of the splits.
-/

namespace Kaspad.Wallet
open Lib List

variable {KeyString ExtendedKey : Type}

/-! ## Inputs -/

def spends (txs : List (PartiallySignedTransaction KeyString)) : List DomainOutpoint :=
  txs.flatMap fun tx => tx.tx.outpoints

theorem spends_append (txs txs' : List (PartiallySignedTransaction KeyString)) :
    spends (txs ++ txs') = spends txs ++ spends txs' := flatMap_append

theorem spends_singleton (tx : PartiallySignedTransaction KeyString) : spends [tx] = tx.tx.outpoints :=
  flatMap_singleton _ _

def Paired (t : PartiallySignedTransaction KeyString) : Prop := t.partiallySignedInputs.length = t.tx.inputs.length

variable [LinearOrder KeyString] {s : Server KeyString ExtendedKey} {r : Request}
  {t t' : PartiallySignedTransaction KeyString} {splits txs : List (PartiallySignedTransaction KeyString)}
  {depth : ℕ}
  {payments : List Payment} {selected additional : List UTXO} {split : PartiallySignedTransaction KeyString}

theorem create_outpoints (h : create s payments selected = .ok t) : t.tx.outpoints = selected.map (·.outpoint) := by
  obtain ⟨outputs, -, htx, -⟩ := create_ok h
  rw [htx]
  simp [DomainTransaction.outpoints, unsignedTransaction]

theorem create_paired (h : create s payments selected = .ok t) : Paired t := by
  obtain ⟨outputs, -, htx, hinputs⟩ := create_ok h
  rw [Paired, ← (mapM_eq_ok.mp hinputs).length_eq, htx]
  simp [unsignedTransaction]

theorem create_outputs_length (h : create s payments selected = .ok t) : t.tx.outputs.length = payments.length := by
  obtain ⟨outputs, houtputs, htx, -⟩ := create_ok h
  rw [htx]
  exact (mapM_eq_ok.mp houtputs).length_eq.symm

variable {endIndex : ℕ}

omit [LinearOrder KeyString] in
theorem inputsBetween_outpoints {startIndex : ℕ} (ht : Paired t)
    (h : inputsBetween t startIndex endIndex = .ok selected) :
    selected.map (·.outpoint) = (t.tx.outpoints.take endIndex).drop startIndex := by
  unfold inputsBetween at h
  rw [ht] at h
  by_cases hpanic : startIndex < min endIndex t.tx.inputs.length ∧ t.tx.inputs.length < min endIndex t.tx.inputs.length
  · exact absurd hpanic.2 (not_lt.mpr (Nat.min_le_right _ _))
  rw [if_neg hpanic] at h
  cases h
  have htake : t.tx.inputs.take (min endIndex t.tx.inputs.length) = t.tx.inputs.take endIndex :=
    take_eq_take_iff.mpr (by simp)
  rw [map_zipWith, htake, DomainTransaction.outpoints, ← map_take, ← map_drop]
  refine zipWith_right _ _ _ ?_
  have hpaired : t.partiallySignedInputs.length = t.tx.inputs.length := ht
  simp [hpaired]

/-! ## Splits -/

theorem createSplitTransaction_ok {startIndex : ℕ} (ht : Paired t)
    (h : createSplitTransaction s r t startIndex endIndex = .ok t') :
    t'.tx.outpoints = (t.tx.outpoints.take endIndex).drop startIndex ∧ t'.tx.outputs.length = 1 := by
  obtain ⟨selected, hselected, h⟩ := bind_eq_ok.mp h
  obtain ⟨value, -, h⟩ := bind_eq_ok.mp h
  exact ⟨(create_outpoints h).trans (inputsBetween_outpoints ht hselected), create_outputs_length h⟩

theorem SplitsInto.pieces (h : SplitsInto s r t splits) (ht : Paired t) :
    ∃ count perSplit, 0 < perSplit ∧ (count - 1) * perSplit < t.tx.outpoints.length ∧
      t.tx.outpoints.length ≤ count * perSplit ∧
      List.Forall₂ (fun i (split : PartiallySignedTransaction KeyString) => split.tx.outpoints =
        (t.tx.outpoints.take (i * perSplit + perSplit)).drop (i * perSplit) ∧ split.tx.outputs.length = 1)
        (List.range count) splits := by
  obtain ⟨mass, ⟨count, perSplit⟩, -, -, hcounts, hsplits⟩ := h
  obtain ⟨hperSplit, -, hlast, hall⟩ := splitAndInputPerSplitCounts_ok hcounts
  have hlength : t.tx.outpoints.length = t.tx.inputs.length := length_map _
  refine ⟨count, perSplit, hperSplit, hlength ▸ hlast, hlength ▸ hall, (mapM_eq_ok.mp hsplits).imp fun i split h => ?_⟩
  obtain ⟨split', hsplit, h⟩ := bind_eq_ok.mp h
  obtain ⟨-, -, h⟩ := bind_eq_ok.mp h
  cases h
  exact createSplitTransaction_ok ht hsplit

theorem SplitsInto.spends_eq (h : SplitsInto s r t splits) (ht : Paired t) : spends splits = t.tx.outpoints := by
  obtain ⟨count, perSplit, -, -, hall, hpieces⟩ := h.pieces ht
  rw [spends, flatMap_eq_of_forall₂ (hpieces.imp fun _ _ h => h.1), flatMap_pieces, take_of_length_le hall]

theorem SplitsInto.of_mem (h : SplitsInto s r t splits) (ht : Paired t) (hsplit : split ∈ splits) :
    split.tx.outpoints ≠ [] ∧ split.tx.outputs.length = 1 := by
  obtain ⟨count, perSplit, hperSplit, hlast, -, hpieces⟩ := h.pieces ht
  obtain ⟨i, hi, hpiece, houtputs⟩ := exists_of_mem_right hpieces hsplit
  refine ⟨?_, houtputs⟩
  have hi' : i * perSplit ≤ (count - 1) * perSplit :=
    Nat.mul_le_mul_right _ (Nat.le_sub_one_of_lt (mem_range.mp hi))
  rw [hpiece, ← length_pos_iff, length_drop, length_take]
  omega

/-! ## The merge transaction -/

variable (s r)

def Adds (depth : ℕ) (splits : List (PartiallySignedTransaction KeyString))
    (t : PartiallySignedTransaction KeyString) (additional : List UTXO) : Prop :=
  ∃ payment rest utxos total, t.tx.outputs = payment :: rest ∧ splits.mapM (splitOutput r) = .ok utxos ∧
    mergeFunds s depth r utxos payment.value = .ok (additional, total)

variable {s r}

omit [LinearOrder KeyString] in
theorem moreUTXOs_sublist (alreadySelected : List DomainOutpoint) (virtualDAAScore requiredAmount feePerInput : ℕ)
    (utxos : List WalletUTXO) (added : ℕ) :
    (moreUTXOs s alreadySelected virtualDAAScore requiredAmount feePerInput utxos added).1.Sublist utxos := by
  induction utxos generalizing added with
  | nil => exact .slnil
  | cons utxo utxos ih =>
    unfold moreUTXOs
    dsimp only
    split_ifs
    · exact (ih added).cons _
    · exact (ih added).cons _
    · exact (nil_sublist utxos).cons_cons utxo
    · exact (ih _).cons_cons utxo

theorem Adds.sublist (h : Adds s r depth splits t additional) : additional.Sublist s.utxosSortedByAmount := by
  obtain ⟨payment, rest, utxos, total, -, -, h⟩ := h
  obtain ⟨fee, -, h⟩ := bind_eq_ok.mp h
  by_cases hshort : sub64 (totalAmount utxos) fee < payment.value
  · rw [if_pos hshort] at h
    obtain ⟨⟨additional', added⟩, hmore, h⟩ := bind_eq_ok.mp h
    cases h
    obtain ⟨virtualDAAScore, -, hmore⟩ := bind_eq_ok.mp hmore
    obtain ⟨feePerInput, -, hmore⟩ := bind_eq_ok.mp hmore
    dsimp only at hmore
    split_ifs at hmore
    cases hmore
    exact moreUTXOs_sublist _ _ _ _ _ _
  · rw [if_neg hshort] at h
    cases h
    exact nil_sublist _

theorem Adds.unique {additional' : List UTXO} (h : Adds s r depth splits t additional)
    (h' : Adds s r depth splits t additional') : additional = additional' := by
  obtain ⟨payment, rest, utxos, total, houtputs, hutxos, hfunds⟩ := h
  obtain ⟨payment', rest', utxos', total', houtputs', hutxos', hfunds'⟩ := h'
  obtain ⟨rfl, -⟩ := List.cons.inj (houtputs.symm.trans houtputs')
  cases hutxos.symm.trans hutxos'
  exact (Prod.mk.inj (Except.ok.inj (hfunds.symm.trans hfunds'))).1

omit [LinearOrder KeyString] in
theorem splitOutput_outpoints {utxos : List UTXO} (h : splits.mapM (splitOutput r) = .ok utxos) :
    utxos.map (·.outpoint) = splits.map fun split => ⟨split.tx.id, 0⟩ := by
  induction mapM_eq_ok.mp h with
  | nil => rfl
  | @cons split utxo splits utxos hutxo hrest ih =>
    rw [map_cons, map_cons, ih (mapM_eq_ok.mpr hrest)]
    unfold splitOutput at hutxo
    cases hhead : split.tx.outputs.head? with
    | none => rw [hhead] at hutxo; cases hutxo
    | some output =>
      rw [hhead] at hutxo
      cases hutxo
      rfl

theorem mergeTransaction_ok (h : mergeTransaction s depth r splits t = .ok t') :
    ∃ additional, Adds s r depth splits t additional ∧ Paired t' ∧
      t'.tx.outpoints = splits.map (fun split => ⟨split.tx.id, 0⟩) ++ additional.map (·.outpoint) := by
  unfold mergeTransaction at h
  cases houtputs : t.tx.outputs with
  | nil => rw [houtputs] at h; cases h
  | cons payment rest =>
    rw [houtputs] at h
    dsimp only at h
    by_cases hrest : rest.length > 1
    · rw [if_pos hrest] at h
      cases h
    rw [if_neg hrest] at h
    obtain ⟨utxos, hutxos, h⟩ := bind_eq_ok.mp h
    obtain ⟨⟨additional, total⟩, hfunds, h⟩ := bind_eq_ok.mp h
    refine ⟨additional, ⟨payment, rest, utxos, total, houtputs, hutxos, hfunds⟩, create_paired h, ?_⟩
    rw [create_outpoints h, map_append, splitOutput_outpoints hutxos]

/-! ## A run -/

variable (s r)

/-- A merge transaction of the run takes an additional output of the wallet that is spent already. -/
inductive Reuses : List DomainOutpoint → ℕ → PartiallySignedTransaction KeyString → Prop
  | here {spent : List DomainOutpoint} {depth : ℕ} {t : PartiallySignedTransaction KeyString}
      {splits : List (PartiallySignedTransaction KeyString)} {additional : List UTXO} {utxo : UTXO}
      (hsplits : SplitsInto s r t splits) (hlength : 1 < splits.length)
      (hadds : Adds s r depth splits t additional) (hutxo : utxo ∈ additional)
      (hspent : utxo.outpoint ∈ spent ++ t.tx.outpoints) : Reuses spent (depth + 1) t
  | later {spent : List DomainOutpoint} {depth : ℕ} {t t' : PartiallySignedTransaction KeyString}
      {splits : List (PartiallySignedTransaction KeyString)} (hsplits : SplitsInto s r t splits)
      (hlength : 1 < splits.length) (hmerge : mergeTransaction s depth r splits t = .ok t')
      (hlater : Reuses (spent ++ t.tx.outpoints) depth t') : Reuses spent (depth + 1) t

variable {s r}

theorem outpoints_subset_spends (ht : Paired t) (h : maybeSplitAndMergeTransaction s r depth t = .ok txs) :
    t.tx.outpoints ⊆ spends txs := by
  cases depth with
  | zero => cases h
  | succ depth =>
    cases returns_of_ok h with
    | whole hlight => exact (spends_singleton t).symm ▸ List.Subset.refl _
    | split hinto hlength => exact (hinto.spends_eq ht) ▸ List.Subset.refl _
    | merge hinto hlength hmerge hrest =>
      rw [spends_append, hinto.spends_eq ht]
      exact subset_append_left _ _

theorem not_nodup_of_reuses {spent : List DomainOutpoint} (hreuses : Reuses s r spent depth t) (ht : Paired t)
    (h : maybeSplitAndMergeTransaction s r depth t = .ok txs) : ¬ (spent ++ spends txs).Nodup := by
  induction hreuses generalizing txs with
  | @here spent depth t splits additional utxo hsplits hlength hadds hutxo hspent =>
    cases returns_of_ok h with
    | whole hlight => exact absurd hlight hsplits.not_light
    | split hinto hle => exact absurd hlength (not_lt.mpr (hsplits.unique hinto ▸ hle))
    | @merge t' _ rest hinto _ hmerge hrest =>
      obtain rfl := hsplits.unique hinto
      obtain ⟨additional', hadds', hpaired, houtpoints⟩ := mergeTransaction_ok hmerge
      obtain rfl := hadds.unique hadds'
      have hagain : utxo.outpoint ∈ spends rest := by
        refine outpoints_subset_spends hpaired hrest ?_
        rw [houtpoints]
        exact mem_append_right _ (mem_map_of_mem hutxo)
      rw [spends_append, hinto.spends_eq ht, ← append_assoc]
      exact fun hnodup => (nodup_append'.mp hnodup).2.2 hspent hagain
  | @later spent depth t t' splits hsplits hlength hmerge hlater ih =>
    cases returns_of_ok h with
    | whole hlight => exact absurd hlight hsplits.not_light
    | split hinto hle => exact absurd hlength (not_lt.mpr (hsplits.unique hinto ▸ hle))
    | @merge t'' _ rest hinto _ hmerge' hrest =>
      obtain rfl := hsplits.unique hinto
      cases hmerge.symm.trans hmerge'
      obtain ⟨-, -, hpaired, -⟩ := mergeTransaction_ok hmerge
      rw [spends_append, hinto.spends_eq ht, ← append_assoc]
      exact ih hpaired hrest

def walletOutpoints (s : Server KeyString ExtendedKey) : List DomainOutpoint :=
  s.utxosSortedByAmount.map (·.outpoint)

/-- Two listed transactions with one identifier are one, and the wallet has no output of them. -/
structure FreshIDs (s : Server KeyString ExtendedKey) (txs : List (PartiallySignedTransaction KeyString)) :
    Prop where
  injective : ∀ a ∈ txs, ∀ b ∈ txs, a.tx.id = b.tx.id → a.tx = b.tx
  notInWallet : ∀ a ∈ txs, ∀ o ∈ walletOutpoints s, o.transactionID ≠ a.tx.id

/-- Nothing is spent twice, and what is spent is of the wallet or of an earlier transaction. -/
structure Unspent (s : Server KeyString ExtendedKey) (done : List (PartiallySignedTransaction KeyString))
    (t : PartiallySignedTransaction KeyString) : Prop where
  paired : Paired t
  nodup : (spends done ++ t.tx.outpoints).Nodup
  known : ∀ o ∈ spends done ++ t.tx.outpoints, o ∈ walletOutpoints s ∨ ∃ tx ∈ done, o = ⟨tx.tx.id, 0⟩

omit [LinearOrder KeyString] in
theorem mem_spends {tx : PartiallySignedTransaction KeyString} {o : DomainOutpoint} (htx : tx ∈ txs)
    (ho : o ∈ tx.tx.outpoints) : o ∈ spends txs := mem_flatMap.mpr ⟨tx, htx, ho⟩

variable {done : List (PartiallySignedTransaction KeyString)} (hu : Unspent s done t)
include hu

theorem Unspent.split_fresh (hinto : SplitsInto s r t splits) (hids : FreshIDs s (done ++ splits))
    (hsplit : split ∈ splits) : ⟨split.tx.id, 0⟩ ∉ spends done ++ t.tx.outpoints := by
  intro hmem
  obtain hwallet | ⟨tx, htx, heq⟩ := hu.known _ hmem
  · exact hids.notInWallet split (mem_append_right _ hsplit) _ hwallet rfl
  have hsame : split.tx = tx.tx := hids.injective split (mem_append_right _ hsplit) tx
    (mem_append_left _ htx) (DomainOutpoint.mk.inj heq).1
  obtain ⟨o, ho⟩ := exists_mem_of_ne_nil _ (hinto.of_mem hu.paired hsplit).1
  have hnow := hinto.spends_eq hu.paired ▸ mem_spends hsplit ho
  exact (nodup_append'.mp hu.nodup).2.2 (mem_spends htx (hsame ▸ ho)) hnow

theorem Unspent.splits_nodup (hinto : SplitsInto s r t splits) (hids : FreshIDs s (done ++ splits)) :
    (splits.map fun split => (⟨split.tx.id, 0⟩ : DomainOutpoint)).Nodup := by
  have hnodup := hinto.spends_eq hu.paired ▸ (nodup_append'.mp hu.nodup).2.1
  refine pairwise_map.mpr ((nodup_flatMap.mp hnodup).2.imp_of_mem fun {a b} ha hb hdisjoint heq => ?_)
  have hsame := hids.injective a (mem_append_right _ ha) b (mem_append_right _ hb) (DomainOutpoint.mk.inj heq).1
  obtain ⟨o, ho⟩ := exists_mem_of_ne_nil _ (hinto.of_mem hu.paired ha).1
  have ho' := hsame ▸ ho
  exact hdisjoint ho ho'

theorem Unspent.merge (hwallet : (walletOutpoints s).Nodup) (hinto : SplitsInto s r t splits)
    (hlength : 1 < splits.length) (hmerge : mergeTransaction s depth r splits t = .ok t')
    (hids : FreshIDs s (done ++ splits)) (hreuses : ¬ Reuses s r (spends done) (depth + 1) t) :
    Unspent s (done ++ splits) t' := by
  obtain ⟨additional, hadds, hpaired, houtpoints⟩ := mergeTransaction_ok hmerge
  have hsublist : (additional.map (·.outpoint)).Sublist (walletOutpoints s) := hadds.sublist.map _
  have hspends : spends (done ++ splits) = spends done ++ t.tx.outpoints := by
    rw [spends_append, hinto.spends_eq hu.paired]
  refine ⟨hpaired, ?_, ?_⟩
  · rw [hspends, houtpoints]
    refine nodup_append'.mpr ⟨hu.nodup, nodup_append'.mpr ⟨hu.splits_nodup hinto hids,
      hwallet.sublist hsublist, ?_⟩, ?_⟩
    · intro o ho hadditional
      obtain ⟨split, hsplit, rfl⟩ := mem_map.mp ho
      exact hids.notInWallet split (mem_append_right _ hsplit) _ (hsublist.subset hadditional) rfl
    intro o hspent ho
    obtain ho | ho := mem_append.mp ho
    · obtain ⟨split, hsplit, rfl⟩ := mem_map.mp ho
      exact hu.split_fresh hinto hids hsplit hspent
    obtain ⟨utxo, hutxo, rfl⟩ := mem_map.mp ho
    exact hreuses (.here hinto hlength hadds hutxo hspent)
  · rw [hspends, houtpoints]
    intro o ho
    obtain ho | ho := mem_append.mp ho
    · obtain hknown | ⟨tx, htx, heq⟩ := hu.known o ho
      · exact .inl hknown
      · exact .inr ⟨tx, mem_append_left _ htx, heq⟩
    obtain ho | ho := mem_append.mp ho
    · obtain ⟨split, hsplit, rfl⟩ := mem_map.mp ho
      exact .inr ⟨split, mem_append_right _ hsplit, rfl⟩
    · exact .inl (hsublist.subset ho)

theorem spends_nodup (hwallet : (walletOutpoints s).Nodup)
    (h : maybeSplitAndMergeTransaction s r depth t = .ok txs) (hids : FreshIDs s (done ++ txs))
    (hreuses : ¬ Reuses s r (spends done) depth t) : (spends (done ++ txs)).Nodup := by
  induction depth generalizing done t txs with
  | zero => cases h
  | succ depth ih =>
    cases returns_of_ok h with
    | whole hlight =>
      rw [spends_append, spends_singleton]
      exact hu.nodup
    | split hinto hlength =>
      rw [spends_append, hinto.spends_eq hu.paired]
      exact hu.nodup
    | @merge t' splits rest hinto hlength hmerge hrest =>
      rw [← append_assoc] at hids ⊢
      have hsplits : FreshIDs s (done ++ splits) := ⟨fun a ha b hb => hids.injective a (mem_append_left _ ha) b
        (mem_append_left _ hb), fun a ha => hids.notInWallet a (mem_append_left _ ha)⟩
      refine ih (hu.merge hwallet hinto hlength hmerge hsplits hreuses) hrest hids fun hlater => hreuses ?_
      rw [spends_append, hinto.spends_eq hu.paired] at hlater
      exact .later hinto hlength hmerge hlater

omit hu

/-! ## Where the inputs come from -/

def KnownAfter (s : Server KeyString ExtendedKey) (original : List DomainOutpoint)
    (earlier : List (PartiallySignedTransaction KeyString)) (o : DomainOutpoint) : Prop :=
  o ∈ original ∨ o ∈ walletOutpoints s ∨ ∃ tx ∈ earlier, 0 < tx.tx.outputs.length ∧ o = ⟨tx.tx.id, 0⟩

def Known (s : Server KeyString ExtendedKey) (original : List DomainOutpoint)
    (txs : List (PartiallySignedTransaction KeyString)) : Prop :=
  ∀ before tx after, txs = before ++ tx :: after → ∀ o ∈ tx.tx.outpoints, KnownAfter s original before o

section
variable {original : List DomainOutpoint} {done : List (PartiallySignedTransaction KeyString)}

omit [LinearOrder KeyString] in
theorem KnownAfter.append {o : DomainOutpoint} (h : KnownAfter s original done o)
    (more : List (PartiallySignedTransaction KeyString)) : KnownAfter s original (done ++ more) o := by
  obtain h | h | ⟨tx, htx, h⟩ := h
  · exact .inl h
  · exact .inr (.inl h)
  · exact .inr (.inr ⟨tx, mem_append_left _ htx, h⟩)

omit [LinearOrder KeyString] in
theorem Known.append (hdone : Known s original done)
    (h : ∀ tx ∈ txs, ∀ o ∈ tx.tx.outpoints, KnownAfter s original done o) : Known s original (done ++ txs) := by
  intro before tx after heq o ho
  obtain ⟨more, rfl, rfl⟩ | ⟨more, rfl, hrest⟩ := append_eq_append_iff.mp heq
  · exact (h tx (by simp) o ho).append more
  cases more with
  | nil =>
    rw [nil_append] at hrest
    subst hrest
    rw [append_nil] at h
    exact h tx mem_cons_self o ho
  | cons tx' more =>
    obtain ⟨rfl, -⟩ := List.cons.inj hrest
    exact hdone before _ more rfl o ho

theorem known_of_call (ht : Paired t) (hdone : Known s original done)
    (hinputs : ∀ o ∈ t.tx.outpoints, KnownAfter s original done o)
    (h : maybeSplitAndMergeTransaction s r depth t = .ok txs) : Known s original (done ++ txs) := by
  induction depth generalizing done t txs with
  | zero => cases h
  | succ depth ih =>
    have hsplits : ∀ {splits}, SplitsInto s r t splits → Known s original (done ++ splits) := fun {splits} hinto =>
      hdone.append fun split hsplit o ho => hinputs o (hinto.spends_eq ht ▸ mem_spends hsplit ho)
    cases returns_of_ok h with
    | whole hlight =>
      refine hdone.append fun tx htx => ?_
      obtain rfl := mem_singleton.mp htx
      exact hinputs
    | split hinto hlength => exact hsplits hinto
    | @merge t' splits rest hinto hlength hmerge hrest =>
      obtain ⟨additional, hadds, hpaired, houtpoints⟩ := mergeTransaction_ok hmerge
      rw [← append_assoc]
      refine ih hpaired (hsplits hinto) (fun o ho => ?_) hrest
      rw [houtpoints] at ho
      obtain ho | ho := mem_append.mp ho
      · obtain ⟨split, hsplit, rfl⟩ := mem_map.mp ho
        exact .inr (.inr ⟨split, mem_append_right _ hsplit, by rw [(hinto.of_mem ht hsplit).2]; decide, rfl⟩)
      · exact .inr (.inl ((hadds.sublist.map _).subset ho))

end

/-! ## Every output once -/

/-- No outpoint is spent twice, every one is known before, and the original inputs are spent. -/
structure SpendsOnce (s : Server KeyString ExtendedKey) (t : PartiallySignedTransaction KeyString)
    (txs : List (PartiallySignedTransaction KeyString)) : Prop where
  distinct : (spends txs).Nodup
  known : Known s t.tx.outpoints txs
  originals : ∀ o ∈ t.tx.outpoints, (spends txs).count o = 1

/-- Every outpoint is spent once exactly where no merge takes an additional output that is spent already. -/
theorem spendsOnce_iff {payments : List Payment} {selected : List UTXO} (hwallet : (walletOutpoints s).Nodup)
    (hselected : (selected.map (·.outpoint)).Nodup) (hfrom : selected.map (·.outpoint) ⊆ walletOutpoints s)
    (hcreate : create s payments selected = .ok t) (h : maybeSplitAndMergeTransaction s r depth t = .ok txs)
    (hids : FreshIDs s txs) : SpendsOnce s t txs ↔ ¬ Reuses s r [] depth t := by
  have hpaired := create_paired hcreate
  have houtpoints := create_outpoints hcreate
  constructor
  · exact fun honce hreuses => not_nodup_of_reuses hreuses hpaired h honce.distinct
  intro hreuses
  have hu : Unspent s [] t := by
    refine ⟨hpaired, ?_, fun o ho => .inl (hfrom ?_)⟩
    · exact houtpoints ▸ hselected
    · exact houtpoints ▸ ho
  have hnodup : (spends txs).Nodup := spends_nodup hu hwallet h hids hreuses
  have hknown : Known s t.tx.outpoints ([] ++ txs) :=
    known_of_call hpaired (fun before tx after heq => by simp at heq) (fun o ho => .inl ho) h
  exact ⟨hnodup, hknown, fun o ho => count_eq_one_of_mem hnodup (outpoints_subset_spends hpaired h ho)⟩

/-- The merge transaction takes an additional output that no split spends. -/
theorem spendsOnce_of_additional : ∃ t txs,
    create sampleServer [⟨sampleRequest.toAddress, 44999000000⟩, ⟨sampleRequest.changeAddress, 800000⟩]
      ((List.range 45).map fun i => sampleUTXO (i + 5)) = .ok t ∧
    maybeSplitAndMergeTransaction sampleServer sampleRequest 2 t = .ok txs ∧
    ⟨1, 0⟩ ∉ t.tx.outpoints ∧ ⟨1, 0⟩ ∈ spends txs ∧ SpendsOnce sampleServer t txs := by
  have hrun : (do
      let t ← create sampleServer [⟨sampleRequest.toAddress, 44999000000⟩, ⟨sampleRequest.changeAddress, 800000⟩]
        ((List.range 45).map fun i => sampleUTXO (i + 5))
      let txs ← maybeSplitAndMergeTransaction sampleServer sampleRequest 2 t
      pure (decide ((∀ a ∈ txs, ∀ b ∈ txs, a.tx.id = b.tx.id → a.tx = b.tx) ∧
        (∀ a ∈ txs, ∀ o ∈ walletOutpoints sampleServer, o.transactionID ≠ a.tx.id) ∧ (spends txs).Nodup ∧
        ⟨1, 0⟩ ∉ t.tx.outpoints ∧ ⟨1, 0⟩ ∈ spends txs))) = (.ok true : Except WalletError Bool) := by
    decide +kernel
  obtain ⟨t, ht, hrun⟩ := bind_eq_ok.mp hrun
  obtain ⟨txs, htxs, hrun⟩ := bind_eq_ok.mp hrun
  obtain ⟨hinjective, hwallet, hnodup, hinputs, hadditional⟩ := of_decide_eq_true (Except.ok.inj hrun)
  refine ⟨t, txs, ht, htxs, hinputs, hadditional,
    (spendsOnce_iff ?_ ?_ ?_ ht htxs ⟨hinjective, hwallet⟩).mpr fun hreuses => ?_⟩
  · decide
  · decide
  · decide
  · exact not_nodup_of_reuses hreuses (create_paired ht) htxs hnodup

/-- 45 inputs: the merge transaction lacks the fee of the splits, and takes an output that the first split spends.
-/
theorem merge_spends_input_again : ∃ t txs, samplePayment 45 44999000000 800000 = .ok t ∧
    maybeSplitAndMergeTransaction sampleServer sampleRequest 2 t = .ok txs ∧
    (spends txs).count ⟨1, 0⟩ = 2 ∧ ¬ SpendsOnce sampleServer t txs := by
  have hrun : (do
      let t ← samplePayment 45 44999000000 800000
      let txs ← maybeSplitAndMergeTransaction sampleServer sampleRequest 2 t
      pure ((spends txs).count ⟨1, 0⟩, decide (spends txs).Nodup)) =
        (.ok (2, false) : Except WalletError (ℕ × Bool)) := by
    decide +kernel
  obtain ⟨t, ht, hrun⟩ := bind_eq_ok.mp hrun
  obtain ⟨txs, htxs, hrun⟩ := bind_eq_ok.mp hrun
  obtain ⟨hcount, hnodup⟩ := Prod.mk.inj (Except.ok.inj hrun)
  exact ⟨t, txs, ht, htxs, hcount, fun honce => absurd honce.distinct (of_decide_eq_false hnodup)⟩

end Kaspad.Wallet
