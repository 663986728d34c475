import Kaspad.Wallet.Split

/-! # Where a split transaction pays

The last transaction that `maybeSplitAndMergeTransaction` returns is the one that is meant to pay the recipient.
A merge transaction does. A transaction above the mass limit whose inputs fit into one split is replaced by that
split alone, which pays the change address.
-/

namespace Kaspad.Wallet
open Lib Relation List
open Mempool (maximumStandardTransactionMass)

/-! ## The calls of a split

What a call of `maybeSplitAndMergeTransaction` that returns has done, in one lemma: the transaction is returned as
it is, or one split, or several splits and what the call for their merge transaction returns.
-/

variable {KeyString ExtendedKey : Type} [LinearOrder KeyString] {s : Server KeyString ExtendedKey} {r : Request}
  {t t' : PartiallySignedTransaction KeyString} {splits txs : List (PartiallySignedTransaction KeyString)}
  {depth : ℕ}

theorem create_ok {payments : List Payment} {selected : List UTXO} (h : create s payments selected = .ok t) :
    ∃ outputs, payments.mapM paymentOutput = .ok outputs ∧
      t.tx = unsignedTransaction s.transactionID (selected.map (·.outpoint)) outputs ∧
      selected.mapM (unsignedInput s.bip32 (sortPublicKeys s.extendedPublicKeys) s.minimumSignatures) =
        .ok t.partiallySignedInputs := by
  obtain ⟨inputs, hinputs, h⟩ := bind_eq_ok.mp h
  obtain ⟨outputs, houtputs, h⟩ := bind_eq_ok.mp h
  cases h
  exact ⟨outputs, houtputs, rfl, hinputs⟩

theorem countsOf_ok {maxAlloc inputCount massForInputs massPerInput count perSplit : ℕ} (hinputs : 0 < inputCount)
    (h : countsOf maxAlloc inputCount massForInputs massPerInput = .ok (count, perSplit)) :
    0 < perSplit ∧ 0 < count ∧ (count - 1) * perSplit < inputCount ∧ inputCount ≤ count * perSplit := by
  unfold countsOf at h
  by_cases hmass : massPerInput = 0
  · rw [if_pos hmass] at h
    cases h
  rw [if_neg hmass] at h
  by_cases halloc : 8 * (massForInputs / massPerInput) > maxAlloc
  · rw [if_pos halloc] at h
    cases h
  rw [if_neg halloc] at h
  by_cases hzero : massForInputs / massPerInput = 0
  · rw [if_pos hzero] at h
    cases h
  rw [if_neg hzero] at h
  cases h
  have hdiv := Nat.div_add_mod inputCount (massForInputs / massPerInput)
  have hlt := Nat.mod_lt inputCount (Nat.pos_of_ne_zero hzero)
  generalize massForInputs / massPerInput = perSplit at hdiv hlt hzero ⊢
  rw [mul_comm] at hdiv
  generalize inputCount / perSplit = quotient at hdiv ⊢
  by_cases hrest : inputCount % perSplit > 0
  · rw [if_pos hrest, Nat.add_sub_cancel, add_mul, one_mul]
    omega
  rw [if_neg hrest, Nat.add_zero, Nat.sub_mul, one_mul]
  have hcount : 0 < quotient := by
    refine Nat.pos_of_ne_zero fun h0 => ?_
    rw [h0] at hdiv
    omega
  omega

theorem splitAndInputPerSplitCounts_ok {mass count perSplit : ℕ}
    (h : splitAndInputPerSplitCounts s r t mass = .ok (count, perSplit)) :
    0 < perSplit ∧ 0 < count ∧ (count - 1) * perSplit < t.tx.inputs.length ∧
      t.tx.inputs.length ≤ count * perSplit := by
  unfold splitAndInputPerSplitCounts at h
  by_cases hinputs : t.tx.inputs.length = 0
  · rw [if_pos hinputs] at h
    cases h
  rw [if_neg hinputs] at h
  obtain ⟨split, -, h⟩ := bind_eq_ok.mp h
  exact countsOf_ok (Nat.pos_of_ne_zero hinputs) h

/-! ## The calls of a run -/

variable (s r)

/-- The transaction is too heavy, and these are its splits. -/
def SplitsInto (t : PartiallySignedTransaction KeyString) (splits : List (PartiallySignedTransaction KeyString)) :
    Prop :=
  ∃ mass counts, estimateComputeMassAfterSignatures s t = .ok mass ∧ maximumStandardTransactionMass ≤ mass ∧
    splitAndInputPerSplitCounts s r t mass = .ok counts ∧ createSplits s r t counts.1 counts.2 = .ok splits

/-- The transaction is not split. -/
def Light (t : PartiallySignedTransaction KeyString) : Prop :=
  ∃ mass, estimateComputeMassAfterSignatures s t = .ok mass ∧ mass < maximumStandardTransactionMass

/-- The call for a transaction of several splits makes the call for their merge transaction. -/
inductive MergesTo : ℕ × PartiallySignedTransaction KeyString → ℕ × PartiallySignedTransaction KeyString → Prop
  | merge {depth : ℕ} {t t' : PartiallySignedTransaction KeyString}
      {splits : List (PartiallySignedTransaction KeyString)} (hsplits : SplitsInto s r t splits)
      (hlength : 1 < splits.length) (hmerge : mergeTransaction s depth r splits t = .ok t') :
      MergesTo (depth + 1, t) (depth, t')

variable {s r}

theorem SplitsInto.unique {splits' : List (PartiallySignedTransaction KeyString)} (h : SplitsInto s r t splits)
    (h' : SplitsInto s r t splits') : splits = splits' := by
  obtain ⟨mass, counts, hmass, -, hcounts, hsplits⟩ := h
  obtain ⟨mass', counts', hmass', -, hcounts', hsplits'⟩ := h'
  cases hmass.symm.trans hmass'
  cases hcounts.symm.trans hcounts'
  exact Except.ok.inj (hsplits.symm.trans hsplits')

theorem SplitsInto.not_light (h : SplitsInto s r t splits) : ¬ Light s t := by
  rintro ⟨mass, hmass, hlt⟩
  obtain ⟨mass', counts, hmass', hle, -, -⟩ := h
  cases hmass.symm.trans hmass'
  exact absurd hlt (not_lt.mpr hle)

inductive Returns (depth : ℕ) (t : PartiallySignedTransaction KeyString) :
    List (PartiallySignedTransaction KeyString) → Prop
  | whole (h : Light s t) : Returns depth t [t]
  | split {splits : List (PartiallySignedTransaction KeyString)} (h : SplitsInto s r t splits)
      (hlength : splits.length ≤ 1) : Returns depth t splits
  | merge {t' : PartiallySignedTransaction KeyString} {splits rest : List (PartiallySignedTransaction KeyString)}
      (h : SplitsInto s r t splits) (hlength : 1 < splits.length)
      (hmerge : mergeTransaction s depth r splits t = .ok t')
      (hrest : maybeSplitAndMergeTransaction s r depth t' = .ok rest) : Returns depth t (splits ++ rest)

theorem returns_of_ok (h : maybeSplitAndMergeTransaction s r (depth + 1) t = .ok txs) :
    Returns (s := s) (r := r) depth t txs := by
  obtain ⟨-, -, h⟩ := bind_eq_ok.mp h
  obtain ⟨mass, hmass, h⟩ := bind_eq_ok.mp h
  by_cases hlight : mass < maximumStandardTransactionMass
  · rw [if_pos hlight] at h
    cases h
    exact .whole ⟨mass, hmass, hlight⟩
  rw [if_neg hlight] at h
  obtain ⟨counts, hcounts, h⟩ := bind_eq_ok.mp h
  obtain ⟨splits, hsplits, h⟩ := bind_eq_ok.mp h
  have hinto : SplitsInto s r t splits := ⟨mass, counts, hmass, not_lt.mp hlight, hcounts, hsplits⟩
  by_cases hlength : splits.length > 1
  · rw [if_pos hlength] at h
    obtain ⟨t', hmerge, h⟩ := bind_eq_ok.mp h
    obtain ⟨rest, hrest, h⟩ := bind_eq_ok.mp h
    cases h
    exact .merge hinto hlength hmerge hrest
  · rw [if_neg hlength] at h
    cases h
    exact .split hinto (not_lt.mp hlength)

/-! ## What a transaction pays -/

def Pays (pst : PartiallySignedTransaction KeyString) (amount : ℕ) (address : Address) : Prop :=
  ∃ output ∈ pst.tx.outputs, output.value = amount ∧ payToAddrScript address = .ok output.scriptPublicKey

instance (pst : PartiallySignedTransaction KeyString) (amount : ℕ) (address : Address) :
    Decidable (Pays pst amount address) :=
  inferInstanceAs (Decidable (∃ output ∈ pst.tx.outputs,
    output.value = amount ∧ payToAddrScript address = .ok output.scriptPublicKey))

/-- The last transaction pays the amount. -/
def LastPays (txs : List (PartiallySignedTransaction KeyString)) (amount : ℕ) (address : Address) : Prop :=
  ∃ last ∈ txs.getLast?, Pays last amount address

instance (txs : List (PartiallySignedTransaction KeyString)) (amount : ℕ) (address : Address) :
    Decidable (LastPays txs amount address) :=
  inferInstanceAs (Decidable (∃ last ∈ txs.getLast?, Pays last amount address))

theorem mergeTransaction_outputs {payment : DomainTransactionOutput} {rest : List DomainTransactionOutput}
    (ht : t.tx.outputs = payment :: rest) (h : mergeTransaction s depth r splits t = .ok t') :
    ∃ spk outputs, t'.tx.outputs = ⟨payment.value, spk⟩ :: outputs ∧ payToAddrScript r.toAddress = .ok spk := by
  unfold mergeTransaction at h
  rw [ht] at h
  dsimp only at h
  by_cases hrest : rest.length > 1
  · rw [if_pos hrest] at h
    cases h
  rw [if_neg hrest] at h
  obtain ⟨utxos, -, h⟩ := bind_eq_ok.mp h
  obtain ⟨⟨additionalUTXOs, totalValue⟩, -, h⟩ := bind_eq_ok.mp h
  obtain ⟨outputs, houtputs, htx, -⟩ := create_ok h
  obtain ⟨output, outputs, houtput, -, rfl⟩ := forall₂_cons_left_iff.mp (mapM_eq_ok.mp houtputs)
  obtain ⟨spk, hspk, h⟩ := bind_eq_ok.mp houtput
  cases h
  exact ⟨spk, outputs, by rw [htx]; rfl, hspk⟩

/-! ## A single split

It moves all inputs to the change address.
-/

variable {amount : ℕ} {address : Address}

variable (s r) in
/-- The change address has the script of the recipient, and the inputs are worth the amount and the fee. -/
def ChangePays (t : PartiallySignedTransaction KeyString) (amount : ℕ) : Prop :=
  payToAddrScript r.changeAddress = payToAddrScript r.toAddress ∧
    splitValue s r (List.zipWith spentUTXO t.partiallySignedInputs t.tx.inputs) = .ok amount

omit [LinearOrder KeyString] in
theorem inputsBetween_all {endIndex : ℕ} {selected : List UTXO} (hend : t.tx.inputs.length ≤ endIndex)
    (h : inputsBetween t 0 endIndex = .ok selected) :
    selected = List.zipWith spentUTXO t.partiallySignedInputs t.tx.inputs := by
  unfold inputsBetween at h
  dsimp only at h
  split_ifs at h
  cases h
  rw [drop_zero, drop_zero, ← take_zipWith, take_of_length_le]
  rw [length_zipWith]
  omega

theorem SplitsInto.pays_iff {split : PartiallySignedTransaction KeyString} (h : SplitsInto s r t [split]) :
    Pays split amount r.toAddress ↔ ChangePays s r t amount := by
  obtain ⟨mass, ⟨count, perSplit⟩, -, -, hcounts, hsplits⟩ := h
  obtain ⟨-, -, -, hall⟩ := splitAndInputPerSplitCounts_ok hcounts
  have hsplits := mapM_eq_ok.mp hsplits
  obtain rfl : count = 1 := by simpa using hsplits.length_eq
  obtain ⟨hsplit, -⟩ := forall₂_cons.mp hsplits
  obtain ⟨split', hsplit, h⟩ := bind_eq_ok.mp hsplit
  obtain ⟨-, -, h⟩ := bind_eq_ok.mp h
  cases h
  obtain ⟨selected, hselected, h⟩ := bind_eq_ok.mp hsplit
  obtain ⟨value, hvalue, h⟩ := bind_eq_ok.mp h
  rw [Nat.zero_mul, Nat.zero_add] at hselected
  rw [one_mul] at hall
  rw [inputsBetween_all hall hselected] at hvalue
  obtain ⟨outputs, houtputs, htx, -⟩ := create_ok h
  obtain ⟨output, rest, houtput, hrest, rfl⟩ := forall₂_cons_left_iff.mp (mapM_eq_ok.mp houtputs)
  cases hrest
  obtain ⟨spk, hspk, houtput⟩ := bind_eq_ok.mp houtput
  cases houtput
  rw [Pays, ChangePays, htx, hvalue, hspk]
  simp [unsignedTransaction, eq_comm, and_comm]

/-! ## The last transaction -/

theorem SplitsInto.length_pos (h : SplitsInto s r t splits) : 0 < splits.length := by
  obtain ⟨mass, ⟨count, perSplit⟩, -, -, hcounts, hsplits⟩ := h
  have hlength := (mapM_eq_ok.mp hsplits).length_eq
  rw [length_range] at hlength
  exact hlength ▸ (splitAndInputPerSplitCounts_ok hcounts).2.1

theorem returned_ne_nil (h : maybeSplitAndMergeTransaction s r depth t = .ok txs) : txs ≠ [] := by
  cases depth with
  | zero => cases h
  | succ depth =>
    cases returns_of_ok h with
    | whole hlight => simp
    | split hinto hlength => exact ne_nil_of_length_pos hinto.length_pos
    | merge hinto hlength hmerge hrest =>
      exact append_ne_nil_of_left_ne_nil (ne_nil_of_length_pos hinto.length_pos) _

omit [LinearOrder KeyString] in
theorem lastPays_singleton : LastPays [t] amount address ↔ Pays t amount address := by
  simp [LastPays]

omit [LinearOrder KeyString] in
theorem lastPays_append {rest : List (PartiallySignedTransaction KeyString)} (h : rest ≠ []) :
    LastPays (splits ++ rest) amount address ↔ LastPays rest amount address := by
  rw [LastPays, List.getLast?_append_of_ne_nil _ h]
  rfl

variable (s r)

/-- A transaction that is not split pays it, and none on the way is replaced by a single split, unless its change
pays it. -/
def Delivers (depth : ℕ) (t : PartiallySignedTransaction KeyString) (amount : ℕ) : Prop :=
  (Light s t → Pays t amount r.toAddress) ∧
    ∀ call split, ReflTransGen (MergesTo s r) (depth, t) call → SplitsInto s r call.2 [split] →
      ChangePays s r call.2 amount

variable {s r}

theorem delivers_of_light (h : Light s t) : Delivers s r depth t amount ↔ Pays t amount r.toAddress := by
  refine ⟨fun hdelivers => hdelivers.1 h, fun hpays => ⟨fun _ => hpays, fun call split hcall hsplit => ?_⟩⟩
  cases hcall.cases_head with
  | inl heq => exact absurd h (SplitsInto.not_light (heq ▸ hsplit))
  | inr hstep =>
    obtain ⟨_, ⟨hinto, -, -⟩, -⟩ := hstep
    exact absurd h hinto.not_light

theorem delivers_of_single {split : PartiallySignedTransaction KeyString}
    (h : SplitsInto s r t [split]) : Delivers s r depth t amount ↔ Pays split amount r.toAddress := by
  rw [h.pays_iff]
  refine ⟨fun hdelivers => hdelivers.2 (depth, t) split .refl h, fun hpays => ⟨fun hlight => absurd hlight h.not_light,
    fun call split' hcall hsplit => ?_⟩⟩
  cases hcall.cases_head with
  | inl heq =>
    obtain rfl := heq
    exact hpays
  | inr hstep =>
    obtain ⟨_, ⟨hinto, hlength, -⟩, -⟩ := hstep
    rw [← h.unique hinto] at hlength
    exact absurd hlength (by simp)

theorem delivers_of_merge (h : SplitsInto s r t splits) (hlength : 1 < splits.length)
    (hmerge : mergeTransaction s depth r splits t = .ok t') (hpays : Pays t' amount r.toAddress) :
    Delivers s r (depth + 1) t amount ↔ Delivers s r depth t' amount := by
  constructor
  · exact fun hdelivers => ⟨fun _ => hpays, fun call split hcall =>
      hdelivers.2 call split (.head (.merge h hlength hmerge) hcall)⟩
  refine fun hdelivers => ⟨fun hlight => absurd hlight h.not_light, fun call split hcall hsplit => ?_⟩
  cases hcall.cases_head with
  | inl heq =>
    obtain rfl := heq
    rw [h.unique hsplit] at hlength
    exact absurd hlength (by simp)
  | inr hstep =>
    obtain ⟨_, ⟨hinto, -, hmerge'⟩, hrest⟩ := hstep
    obtain rfl := h.unique hinto
    cases hmerge.symm.trans hmerge'
    exact hdelivers.2 call split hrest hsplit

/-- The last transaction pays the recipient exactly where none above the limit is replaced by a single split. -/
theorem lastPays_iff {payment : DomainTransactionOutput} {rest : List DomainTransactionOutput}
    (ht : t.tx.outputs = payment :: rest) (h : maybeSplitAndMergeTransaction s r depth t = .ok txs) :
    LastPays txs payment.value r.toAddress ↔ Delivers s r depth t payment.value := by
  -- the payment keeps its value from one merge to the next
  induction depth generalizing t payment rest txs with
  | zero => cases h
  | succ depth ih =>
    cases returns_of_ok h with
    | whole hlight => rw [lastPays_singleton, delivers_of_light hlight]
    | split hinto hlength =>
      obtain ⟨split, rfl⟩ := length_eq_one_iff.mp (Nat.le_antisymm hlength hinto.length_pos)
      rw [lastPays_singleton, delivers_of_single hinto]
    | merge hinto hlength hmerge hrest =>
      obtain ⟨spk, outputs, houtputs, hspk⟩ := mergeTransaction_outputs ht hmerge
      have hpays := ih houtputs hrest
      rw [lastPays_append (returned_ne_nil hrest), hpays, delivers_of_merge hinto hlength hmerge]
      exact ⟨⟨payment.value, spk⟩, houtputs ▸ mem_cons_self, rfl, hspk⟩

/-! ## A wallet of two keys -/

def sampleBip32 : Bip32 ℕ ℕ where
  deserializeExtendedKey := .ok
  deriveFromPath key _ := .ok key
  string := id
  serializedPublicKey key ecdsa := .ok (List.replicate (if ecdsa then 33 else 32) (UInt8.ofNat key))
  length_serializedPublicKey key ecdsa publicKey h := by
    obtain rfl := Except.ok.inj h
    exact length_replicate

def sampleUTXO (i : ℕ) : UTXO := ⟨⟨1, i⟩, ⟨1000000000, ⟨[], 0⟩, 0, false⟩, "m"⟩

def sampleServer : Server ℕ ℕ where
  bip32 := sampleBip32
  transactionID tx := 2 + tx.inputs.length + (tx.inputs.map (·.previousOutpoint.index)).sum
  extendedPublicKeys := [2, 1]
  minimumSignatures := 2
  ecdsa := false
  txMassCalculator := .new 1 10 1000
  utxosSortedByAmount := (List.range 50).map sampleUTXO
  coinbaseMaturity := 100
  virtualDAAScore _ := .ok 1000
  feeRateBelowOne fee mass := fee < mass
  maxAlloc := 2 ^ 48

def sampleRequest : Request where
  toAddress := .publicKey (List.replicate 32 9)
  changeAddress := .scriptHash (List.replicate 32 5)
  changePath := "m"
  feeRate := ⟨id, id⟩
  maxFee := 2 ^ 64 - 1

def samplePayment (count payment change : ℕ) : Except WalletError (PartiallySignedTransaction ℕ) :=
  create sampleServer [⟨sampleRequest.toAddress, payment⟩, ⟨sampleRequest.changeAddress, change⟩]
    ((List.range count).map sampleUTXO)

theorem lastPays_of_two_splits : ∃ t txs, samplePayment 46 30000000000 15999800000 = .ok t ∧
    maybeSplitAndMergeTransaction sampleServer sampleRequest 2 t = .ok txs ∧ txs.length = 3 ∧
    Delivers sampleServer sampleRequest 2 t 30000000000 := by
  have hrun : (do
      let t ← samplePayment 46 30000000000 15999800000
      let txs ← maybeSplitAndMergeTransaction sampleServer sampleRequest 2 t
      pure (txs.length, t.tx.outputs.map (·.value), decide (LastPays txs 30000000000 sampleRequest.toAddress))) =
        (.ok (3, [30000000000, 15999800000], true) : Except WalletError (ℕ × List ℕ × Bool)) := by
    decide +kernel
  obtain ⟨t, ht, hrun⟩ := bind_eq_ok.mp hrun
  obtain ⟨txs, htxs, hrun⟩ := bind_eq_ok.mp hrun
  obtain ⟨hlength, hvalues, hlast⟩ : txs.length = 3 ∧ t.tx.outputs.map (·.value) = [30000000000, 15999800000] ∧
      decide (LastPays txs 30000000000 sampleRequest.toAddress) = true := by
    simpa using Except.ok.inj hrun
  obtain ⟨payment, rest, houtputs, hpayment, -⟩ := map_eq_cons_iff.mp hvalues
  refine ⟨t, txs, ht, htxs, hlength, ?_⟩
  rw [← hpayment] at hlast ⊢
  exact (lastPays_iff houtputs htxs).mp (of_decide_eq_true hlast)

/-- 44 inputs fit into one split with one output: the payment goes to the change address. -/
theorem single_split_pays_change : ∃ t txs, samplePayment 44 30000000000 13999800000 = .ok t ∧
    Pays t 30000000000 sampleRequest.toAddress ∧
    maybeSplitAndMergeTransaction sampleServer sampleRequest 1 t = .ok txs ∧
    ¬ LastPays txs 30000000000 sampleRequest.toAddress ∧ LastPays txs 43999900307 sampleRequest.changeAddress := by
  have hrun : (do
      let t ← samplePayment 44 30000000000 13999800000
      let txs ← maybeSplitAndMergeTransaction sampleServer sampleRequest 1 t
      pure (decide (Pays t 30000000000 sampleRequest.toAddress),
        decide (LastPays txs 30000000000 sampleRequest.toAddress),
        decide (LastPays txs 43999900307 sampleRequest.changeAddress))) =
        (.ok (true, false, true) : Except WalletError (Bool × Bool × Bool)) := by
    decide +kernel
  obtain ⟨t, ht, hrun⟩ := bind_eq_ok.mp hrun
  obtain ⟨txs, htxs, hrun⟩ := bind_eq_ok.mp hrun
  obtain ⟨hpays, hlast, hchange⟩ := by simpa using Except.ok.inj hrun
  exact ⟨t, txs, ht, hpays, htxs, hlast, hchange⟩

end Kaspad.Wallet
