import Kaspad.Txscript.Engine

/-! # Signature hashes

`domain/consensus/utils/consensushashing/calculate_signature_hash.go`. The hash of an input is taken over a
message of fixed parts, the previous script and the hashes of five further messages, which are kept for the
other inputs of the transaction.
-/

namespace Kaspad.SignatureHash
open Lib LittleEndian List Function

/-! ## Hash types -/

def sigHashAll : UInt8 := 0b00000001

def sigHashNone : UInt8 := 0b00000010

def sigHashSingle : UInt8 := 0b00000100

def sigHashAnyOneCanPay : UInt8 := 0b10000000

def sigHashMask : UInt8 := 0b00000111

def isSigHashNone (sht : UInt8) : Bool := sht &&& sigHashMask = sigHashNone

def isSigHashSingle (sht : UInt8) : Bool := sht &&& sigHashMask = sigHashSingle

def isSigHashAnyOneCanPay (sht : UInt8) : Bool := sht &&& sigHashAnyOneCanPay = sigHashAnyOneCanPay

/-! ## Messages -/

structure SigningHash where
  hash : List UInt8 → DomainHash
  hash_lt : ∀ bytes, hash bytes < 2 ^ 256

def writeBytes (bytes : List UInt8) : List UInt8 := encode 8 bytes.length ++ bytes

def hashOutpoint (outpoint : DomainOutpoint) : List UInt8 :=
  encode 32 outpoint.transactionID ++ encode 4 outpoint.index

def hashTxOut (txOut : DomainTransactionOutput) : List UInt8 :=
  encode 8 txOut.value ++ encode 2 txOut.scriptPublicKey.version ++ writeBytes txOut.scriptPublicKey.script

inductive ReusedField
  | previousOutputsHash | sequencesHash | sigOpCountsHash | outputsHash | payloadHash
  deriving DecidableEq, Repr

abbrev SighashReusedValues := ReusedField → Option DomainHash

def message (tx : DomainTransaction) : ReusedField → List UInt8
  | .previousOutputsHash => tx.inputs.flatMap fun txIn => hashOutpoint txIn.previousOutpoint
  | .sequencesHash => tx.inputs.flatMap fun txIn => encode 8 txIn.sequence
  | .sigOpCountsHash => tx.inputs.flatMap fun txIn => encode 1 txIn.sigOpCount
  | .outputsHash => tx.outputs.flatMap hashTxOut
  | .payloadHash => writeBytes tx.payload

def signatureMessage (tx : DomainTransaction) (txIn : DomainTransactionInput) (utxoEntry : UTXOEntry)
    (hashType : UInt8) (hashes : ReusedField → DomainHash) : List UInt8 :=
  encode 2 tx.version ++ encode 32 (hashes .previousOutputsHash) ++ encode 32 (hashes .sequencesHash) ++
    encode 32 (hashes .sigOpCountsHash) ++ hashOutpoint txIn.previousOutpoint ++
    encode 2 utxoEntry.scriptPublicKey.version ++ writeBytes utxoEntry.scriptPublicKey.script ++
    encode 8 utxoEntry.amount ++ encode 8 txIn.sequence ++ encode 1 txIn.sigOpCount ++
    encode 32 (hashes .outputsHash) ++ encode 8 tx.lockTime ++ encode 20 tx.subnetworkID ++ encode 8 tx.gas ++
    encode 32 (hashes .payloadHash) ++ [hashType]

/-! ## The hashes -/

def zeroHash : DomainHash := 0

section
variable (H : SigningHash) (tx : DomainTransaction)

def reused (field : ReusedField) : StateM SighashReusedValues DomainHash := do
  match (← get) field with
  | some hash => pure hash
  | none =>
    let hash := H.hash (message tx field)
    modify fun reusedValues => Function.update reusedValues field (some hash)
    pure hash

def getPreviousOutputsHash (hashType : UInt8) : StateM SighashReusedValues DomainHash :=
  if isSigHashAnyOneCanPay hashType then pure zeroHash else reused H tx .previousOutputsHash

def getSequencesHash (hashType : UInt8) : StateM SighashReusedValues DomainHash :=
  if isSigHashSingle hashType || isSigHashAnyOneCanPay hashType || isSigHashNone hashType then pure zeroHash
  else reused H tx .sequencesHash

def getSigOpCountsHash (hashType : UInt8) : StateM SighashReusedValues DomainHash :=
  if isSigHashAnyOneCanPay hashType then pure zeroHash else reused H tx .sigOpCountsHash

def getOutputsHash (inputIndex : ℤ) (hashType : UInt8) : StateM SighashReusedValues DomainHash :=
  if isSigHashNone hashType then pure zeroHash
  else if isSigHashSingle hashType then
    -- The index is that of an input, so it has no output only if it is too large.
    match GoSlice.index tx.outputs inputIndex with
    | none => pure zeroHash
    | some txOut => pure (H.hash (hashTxOut txOut))
  else reused H tx .outputsHash

def getPayloadHash : StateM SighashReusedValues DomainHash :=
  if tx.subnetworkID = subnetworkIDNative then pure zeroHash else reused H tx .payloadHash

def hashesOf (previousOutputsHash sequencesHash sigOpCountsHash outputsHash payloadHash : DomainHash) :
    ReusedField → DomainHash
  | .previousOutputsHash => previousOutputsHash
  | .sequencesHash => sequencesHash
  | .sigOpCountsHash => sigOpCountsHash
  | .outputsHash => outputsHash
  | .payloadHash => payloadHash

def calculateSignatureHash (inputIndex : ℤ) (txIn : DomainTransactionInput) (utxoEntry : UTXOEntry)
    (hashType : UInt8) : StateM SighashReusedValues DomainHash := do
  let previousOutputsHash ← getPreviousOutputsHash H tx hashType
  let sequencesHash ← getSequencesHash H tx hashType
  let sigOpCountsHash ← getSigOpCountsHash H tx hashType
  let outputsHash ← getOutputsHash H tx inputIndex hashType
  let payloadHash ← getPayloadHash H tx
  pure (H.hash (signatureMessage tx txIn utxoEntry hashType
    (hashesOf previousOutputsHash sequencesHash sigOpCountsHash outputsHash payloadHash)))

inductive SigHashError
  /-- `SigHashType %d is not a valid SigHash type` -/
  | notValidType (hashType : UInt8)
  /-- A panic: `tx.Inputs[inputIndex]`. -/
  | inputOutOfRange (inputIndex : ℤ)
  /-- A panic: the UTXO entry of the input is nil. -/
  | noUTXOEntry (inputIndex : ℤ)
  deriving DecidableEq, Repr

def calculateSignatureHashSchnorr (populated : Populated) (inputIndex : ℤ) (hashType : UInt8) :
    StateM SighashReusedValues (Except SigHashError DomainHash) :=
  if !Txscript.isStandardSigHashType hashType then pure (.error (.notValidType hashType))
  else
    match GoSlice.index tx.inputs inputIndex with
    | none => pure (.error (.inputOutOfRange inputIndex))
    | some txIn =>
      match populated.utxoEntry inputIndex.toNat with
      | none => pure (.error (.noUTXOEntry inputIndex))
      | some utxoEntry => do pure (.ok (← calculateSignatureHash H tx inputIndex txIn utxoEntry hashType))

def calculateSignatureHashes (populated : Populated) (calls : List (ℤ × UInt8)) :
    StateM SighashReusedValues (List (Except SigHashError DomainHash)) :=
  calls.mapM fun call => calculateSignatureHashSchnorr H tx populated call.1 call.2

end

def fresh : SighashReusedValues := fun _ => none

/-! ## Calls that share their reused values -/

section
variable {H : SigningHash} {tx : DomainTransaction} {α β : Type}

def Coherent (H : SigningHash) (tx : DomainTransaction) (reusedValues : SighashReusedValues) : Prop :=
  ∀ field hash, reusedValues field = some hash → hash = H.hash (message tx field)

def Gives (H : SigningHash) (tx : DomainTransaction) (m : StateM SighashReusedValues α) (v : α) : Prop :=
  ∀ reusedValues, Coherent H tx reusedValues → (m.run reusedValues).1 = v ∧ Coherent H tx (m.run reusedValues).2

theorem coherent_fresh : Coherent H tx fresh := by
  intro field hash h
  cases h

theorem gives_pure (v : α) : Gives H tx (pure v) v := fun _ h => ⟨rfl, h⟩

variable {m : StateM SighashReusedValues α}

theorem Gives.bind {k : α → StateM SighashReusedValues β} {v : α} {w : β} (hm : Gives H tx m v)
    (hk : Gives H tx (k v) w) : Gives H tx (m >>= k) w := by
  intro reusedValues h
  obtain ⟨hv, hcoherent⟩ := hm reusedValues h
  have hrun : (m >>= k).run reusedValues = (k (m.run reusedValues).1).run (m.run reusedValues).2 := rfl
  rw [hrun, hv]
  exact hk _ hcoherent

theorem Gives.ite {c : Prop} [Decidable c] {m' : StateM SighashReusedValues α} {v v' : α}
    (h : Gives H tx m v) (h' : Gives H tx m' v') : Gives H tx (if c then m else m') (if c then v else v') := by
  split_ifs
  · exact h
  · exact h'

theorem gives_reused (field : ReusedField) : Gives H tx (reused H tx field) (H.hash (message tx field)) := by
  intro reusedValues h
  cases hfield : reusedValues field with
  | some hash =>
    have hrun : (reused H tx field).run reusedValues = (hash, reusedValues) := by
      simp only [reused, StateT.run_bind, StateT.run_get, pure_bind, hfield]
      rfl
    rw [hrun]
    exact ⟨h field hash hfield, h⟩
  | none =>
    have hrun : (reused H tx field).run reusedValues = (H.hash (message tx field),
        Function.update reusedValues field (some (H.hash (message tx field)))) := by
      simp only [reused, StateT.run_bind, StateT.run_get, pure_bind, hfield]
      rfl
    rw [hrun]
    refine ⟨rfl, fun field' hash hhash => ?_⟩
    dsimp only at hhash
    by_cases hf : field' = field
    · subst hf
      rw [update_self] at hhash
      exact (Option.some.inj hhash).symm
    · rw [update_of_ne hf] at hhash
      exact h field' hash hhash

def valueOf (H : SigningHash) (tx : DomainTransaction) (inputIndex : ℤ) (hashType : UInt8) : ReusedField → DomainHash
  | .previousOutputsHash =>
    if isSigHashAnyOneCanPay hashType then zeroHash else H.hash (message tx .previousOutputsHash)
  | .sequencesHash =>
    if isSigHashSingle hashType || isSigHashAnyOneCanPay hashType || isSigHashNone hashType then zeroHash
    else H.hash (message tx .sequencesHash)
  | .sigOpCountsHash => if isSigHashAnyOneCanPay hashType then zeroHash else H.hash (message tx .sigOpCountsHash)
  | .outputsHash =>
    if isSigHashNone hashType then zeroHash
    else if isSigHashSingle hashType then
      ((GoSlice.index tx.outputs inputIndex).map fun txOut => H.hash (hashTxOut txOut)).getD zeroHash
    else H.hash (message tx .outputsHash)
  | .payloadHash => if tx.subnetworkID = subnetworkIDNative then zeroHash else H.hash (message tx .payloadHash)

theorem gives_getOutputsHash (inputIndex : ℤ) (hashType : UInt8) :
    Gives H tx (getOutputsHash H tx inputIndex hashType) (valueOf H tx inputIndex hashType .outputsHash) := by
  refine (gives_pure zeroHash).ite (Gives.ite ?_ (gives_reused .outputsHash))
  cases GoSlice.index tx.outputs inputIndex with
  | none => exact gives_pure zeroHash
  | some txOut => exact gives_pure (H.hash (hashTxOut txOut))

theorem gives_calculateSignatureHash (inputIndex : ℤ) (txIn : DomainTransactionInput) (utxoEntry : UTXOEntry)
    (hashType : UInt8) : Gives H tx (calculateSignatureHash H tx inputIndex txIn utxoEntry hashType)
      (H.hash (signatureMessage tx txIn utxoEntry hashType (valueOf H tx inputIndex hashType))) := by
  have hzero : Gives H tx (pure zeroHash) zeroHash := gives_pure zeroHash
  let value := valueOf H tx inputIndex hashType
  refine Gives.bind (v := value .previousOutputsHash) (hzero.ite (gives_reused _)) ?_
  refine Gives.bind (v := value .sequencesHash) (hzero.ite (gives_reused _)) ?_
  refine Gives.bind (v := value .sigOpCountsHash) (hzero.ite (gives_reused _)) ?_
  refine Gives.bind (v := value .outputsHash) (gives_getOutputsHash inputIndex hashType) ?_
  refine Gives.bind (v := value .payloadHash) (hzero.ite (gives_reused _)) ?_
  have hhashes : hashesOf (value .previousOutputsHash) (value .sequencesHash) (value .sigOpCountsHash)
      (value .outputsHash) (value .payloadHash) = value := by
    funext field
    cases field <;> rfl
  rw [hhashes]
  exact gives_pure _

def schnorrHash (H : SigningHash) (tx : DomainTransaction) (populated : Populated) (inputIndex : ℤ)
    (hashType : UInt8) : Except SigHashError DomainHash :=
  if !Txscript.isStandardSigHashType hashType then .error (.notValidType hashType)
  else
    match GoSlice.index tx.inputs inputIndex with
    | none => .error (.inputOutOfRange inputIndex)
    | some txIn =>
      match populated.utxoEntry inputIndex.toNat with
      | none => .error (.noUTXOEntry inputIndex)
      | some utxoEntry =>
        .ok (H.hash (signatureMessage tx txIn utxoEntry hashType (valueOf H tx inputIndex hashType)))

variable (populated : Populated)

theorem gives_calculateSignatureHashSchnorr (inputIndex : ℤ) (hashType : UInt8) :
    Gives H tx (calculateSignatureHashSchnorr H tx populated inputIndex hashType)
      (schnorrHash H tx populated inputIndex hashType) := by
  refine (gives_pure _).ite ?_
  cases GoSlice.index tx.inputs inputIndex with
  | none => exact gives_pure _
  | some txIn =>
    cases populated.utxoEntry inputIndex.toNat with
    | none => exact gives_pure _
    | some utxoEntry => exact (gives_calculateSignatureHash inputIndex txIn utxoEntry hashType).bind (gives_pure _)

theorem gives_calculateSignatureHashes (calls : List (ℤ × UInt8)) :
    Gives H tx (calculateSignatureHashes H tx populated calls)
      (calls.map fun call => schnorrHash H tx populated call.1 call.2) := by
  unfold calculateSignatureHashes
  induction calls with
  | nil => exact gives_pure []
  | cons call calls ih =>
    rw [mapM_cons]
    refine (gives_calculateSignatureHashSchnorr populated call.1 call.2).bind ?_
    exact ih.bind (gives_pure _)

end

/-! ## What a hash commits to -/

/-- The fields are in the ranges of their Go types. -/
structure TransactionFits (tx : DomainTransaction) : Prop where
  version : tx.version < 2 ^ 16
  transactionIDs : ∀ o ∈ tx.outpoints, o.transactionID < 2 ^ 256
  indices : ∀ o ∈ tx.outpoints, o.index < 2 ^ 32
  sequences : ∀ n ∈ tx.inputs.map (·.sequence), n < 2 ^ 64
  sigOpCounts : ∀ n ∈ tx.inputs.map (·.sigOpCount), n < 2 ^ 8
  values : ∀ txOut ∈ tx.outputs, txOut.value < 2 ^ 64
  scriptVersions : ∀ txOut ∈ tx.outputs, txOut.scriptPublicKey.version < 2 ^ 16
  scripts : ∀ txOut ∈ tx.outputs, txOut.scriptPublicKey.script.length < 2 ^ 64
  lockTime : tx.lockTime < 2 ^ 64
  subnetworkID : tx.subnetworkID < 2 ^ 160
  gas : tx.gas < 2 ^ 64
  payload : tx.payload.length < 2 ^ 64

/-- The entries are in the ranges of their Go types. -/
structure EntriesFit (populated : Populated) : Prop where
  amount : ∀ i e, populated.utxoEntry i = some e → e.amount < 2 ^ 64
  version : ∀ i e, populated.utxoEntry i = some e → e.scriptPublicKey.version < 2 ^ 16
  script : ∀ i e, populated.utxoEntry i = some e → e.scriptPublicKey.script.length < 2 ^ 64

theorem delimited_hashOutpoint :
    Delimited (fun o : DomainOutpoint => o.transactionID < 2 ^ 256 ∧ o.index < 2 ^ 32) hashOutpoint := by
  rintro ⟨id, index⟩ ⟨id', index'⟩ r r' ⟨hid, hindex⟩ ⟨hid', hindex'⟩ heq
  unfold hashOutpoint at heq
  rw [append_assoc, append_assoc] at heq
  obtain ⟨hid₁, heq₁⟩ := Delimited.encode 32 _ _ _ _ hid hid' heq
  obtain ⟨hindex₁, heq₂⟩ := Delimited.encode 4 _ _ _ _ hindex hindex' heq₁
  exact ⟨congrArg₂ DomainOutpoint.mk hid₁ hindex₁, heq₂⟩

theorem delimited_writeBytes : Delimited (fun l : List UInt8 => l.length < 2 ^ 64) writeBytes :=
  Delimited.lengthPrefixed 8

theorem delimited_hashTxOut : Delimited (fun txOut : DomainTransactionOutput => txOut.value < 2 ^ 64 ∧
    txOut.scriptPublicKey.version < 2 ^ 16 ∧ txOut.scriptPublicKey.script.length < 2 ^ 64) hashTxOut := by
  rintro ⟨value, script, version⟩ ⟨value', script', version'⟩ r r' ⟨hvalue, hversion, hscript⟩
    ⟨hvalue', hversion', hscript'⟩ heq
  obtain ⟨hvalue₁, heq₁⟩ := Delimited.encode 8 _ _ _ _ hvalue hvalue' heq
  obtain ⟨hversion₁, heq₂⟩ := Delimited.encode 2 _ _ _ _ hversion hversion' heq₁
  obtain ⟨hscript₁, heq₃⟩ := delimited_writeBytes _ _ _ _ hscript hscript' heq₂
  exact ⟨congrArg₂ DomainTransactionOutput.mk hvalue₁ (congrArg₂ ScriptPublicKey.mk hscript₁ hversion₁), heq₃⟩

theorem encode_ne_nil (width n : ℕ) : encode (width + 1) n ≠ [] := cons_ne_nil _ _

section
variable {tx tx' : DomainTransaction} (h : TransactionFits tx) (h' : TransactionFits tx')
include h h'

theorem outpoints_of_message (heq : message tx .previousOutputsHash = message tx' .previousOutputsHash) :
    tx.outpoints = tx'.outpoints := by
  refine delimited_hashOutpoint.flatMap_injective (fun o => ?_) (fun o ho => ⟨h.transactionIDs o ho, h.indices o ho⟩)
    (fun o ho => ⟨h'.transactionIDs o ho, h'.indices o ho⟩) ?_
  · exact append_ne_nil_of_left_ne_nil (encode_ne_nil 31 _) _
  · rwa [DomainTransaction.outpoints, DomainTransaction.outpoints, flatMap_map, flatMap_map]

theorem sequences_of_message (heq : message tx .sequencesHash = message tx' .sequencesHash) :
    tx.inputs.map (·.sequence) = tx'.inputs.map (·.sequence) := by
  refine (Delimited.encode 8).flatMap_injective (encode_ne_nil 7) h.sequences h'.sequences ?_
  rwa [flatMap_map, flatMap_map]

theorem sigOpCounts_of_message (heq : message tx .sigOpCountsHash = message tx' .sigOpCountsHash) :
    tx.inputs.map (·.sigOpCount) = tx'.inputs.map (·.sigOpCount) := by
  refine (Delimited.encode 1).flatMap_injective (encode_ne_nil 0) h.sigOpCounts h'.sigOpCounts ?_
  rwa [flatMap_map, flatMap_map]

theorem outputs_of_message (heq : message tx .outputsHash = message tx' .outputsHash) : tx.outputs = tx'.outputs := by
  refine delimited_hashTxOut.flatMap_injective (fun txOut => ?_)
    (fun o ho => ⟨h.values o ho, h.scriptVersions o ho, h.scripts o ho⟩)
    (fun o ho => ⟨h'.values o ho, h'.scriptVersions o ho, h'.scripts o ho⟩) heq
  unfold hashTxOut
  rw [append_assoc]
  exact append_ne_nil_of_left_ne_nil (encode_ne_nil 7 _) _

omit h h'

structure SameMessage (tx tx' : DomainTransaction) (txIn txIn' : DomainTransactionInput) (e e' : UTXOEntry)
    (hashes hashes' : ReusedField → DomainHash) : Prop where
  version : tx.version = tx'.version
  hashes : hashes = hashes'
  outpoint : txIn.previousOutpoint = txIn'.previousOutpoint
  scriptPublicKey : e.scriptPublicKey = e'.scriptPublicKey
  amount : e.amount = e'.amount
  lockTime : tx.lockTime = tx'.lockTime
  subnetworkID : tx.subnetworkID = tx'.subnetworkID
  gas : tx.gas = tx'.gas

include h h' in
/-- The message can be parsed back: equal messages have equal fields. -/
theorem same_of_signatureMessage {txIn txIn' : DomainTransactionInput} {e e' : UTXOEntry}
    {hashes hashes' : ReusedField → DomainHash} (hin : txIn ∈ tx.inputs) (hin' : txIn' ∈ tx'.inputs)
    (hhashes : ∀ field, hashes field < 2 ^ 256) (hhashes' : ∀ field, hashes' field < 2 ^ 256)
    {populated populated' : Populated} (he : EntriesFit populated) (he' : EntriesFit populated') {i i' : ℕ}
    (hi : populated.utxoEntry i = some e) (hi' : populated'.utxoEntry i' = some e') {hashType : UInt8}
    (heq : signatureMessage tx txIn e hashType hashes = signatureMessage tx' txIn' e' hashType hashes') :
    SameMessage tx tx' txIn txIn' e e' hashes hashes' := by
  have ho := mem_map_of_mem (f := (·.previousOutpoint)) hin
  have ho' := mem_map_of_mem (f := (·.previousOutpoint)) hin'
  have hsequence := h.sequences _ (mem_map_of_mem hin)
  have hsequence' := h'.sequences _ (mem_map_of_mem hin')
  have hsigOps := h.sigOpCounts _ (mem_map_of_mem hin)
  have hsigOps' := h'.sigOpCounts _ (mem_map_of_mem hin')
  unfold signatureMessage at heq
  simp only [append_assoc] at heq
  -- One part after the other, in the order in which they were written.
  obtain ⟨h1, heq1⟩ := Delimited.encode 2 _ _ _ _ h.version h'.version heq
  obtain ⟨h2, heq2⟩ := Delimited.encode 32 _ _ _ _ (hhashes _) (hhashes' _) heq1
  obtain ⟨h3, heq3⟩ := Delimited.encode 32 _ _ _ _ (hhashes _) (hhashes' _) heq2
  obtain ⟨h4, heq4⟩ := Delimited.encode 32 _ _ _ _ (hhashes _) (hhashes' _) heq3
  obtain ⟨h5, heq5⟩ := delimited_hashOutpoint _ _ _ _ ⟨h.transactionIDs _ ho, h.indices _ ho⟩
    ⟨h'.transactionIDs _ ho', h'.indices _ ho'⟩ heq4
  obtain ⟨h6, heq6⟩ := Delimited.encode 2 _ _ _ _ (he.version i e hi) (he'.version i' e' hi') heq5
  obtain ⟨h7, heq7⟩ := delimited_writeBytes _ _ _ _ (he.script i e hi) (he'.script i' e' hi') heq6
  obtain ⟨h8, heq8⟩ := Delimited.encode 8 _ _ _ _ (he.amount i e hi) (he'.amount i' e' hi') heq7
  obtain ⟨-, heq9⟩ := Delimited.encode 8 _ _ _ _ hsequence hsequence' heq8
  obtain ⟨-, heq10⟩ := Delimited.encode 1 _ _ _ _ hsigOps hsigOps' heq9
  obtain ⟨h11, heq11⟩ := Delimited.encode 32 _ _ _ _ (hhashes _) (hhashes' _) heq10
  obtain ⟨h12, heq12⟩ := Delimited.encode 8 _ _ _ _ h.lockTime h'.lockTime heq11
  obtain ⟨h13, heq13⟩ := Delimited.encode 20 _ _ _ _ h.subnetworkID h'.subnetworkID heq12
  obtain ⟨h14, heq14⟩ := Delimited.encode 8 _ _ _ _ h.gas h'.gas heq13
  obtain ⟨h15, -⟩ := Delimited.encode 32 _ _ _ _ (hhashes _) (hhashes' _) heq14
  refine ⟨h1, ?_, h5, ?_, h8, h12, h13, h14⟩
  · funext field
    cases field <;> assumption
  · exact congrArg₂ ScriptPublicKey.mk h7 h6

/-- The two agree in all that a signature of the whole transaction covers. -/
structure SignSame (tx tx' : DomainTransaction) (populated populated' : Populated) (inputIndex inputIndex' : ℤ) :
    Prop where
  version : tx.version = tx'.version
  outpoints : tx.outpoints = tx'.outpoints
  sequences : tx.inputs.map (·.sequence) = tx'.inputs.map (·.sequence)
  sigOpCounts : tx.inputs.map (·.sigOpCount) = tx'.inputs.map (·.sigOpCount)
  outputs : tx.outputs = tx'.outputs
  lockTime : tx.lockTime = tx'.lockTime
  subnetworkID : tx.subnetworkID = tx'.subnetworkID
  gas : tx.gas = tx'.gas
  payload : tx.subnetworkID ≠ subnetworkIDNative → tx.payload = tx'.payload
  input : ∃ txIn txIn' e e', GoSlice.index tx.inputs inputIndex = some txIn ∧
    GoSlice.index tx'.inputs inputIndex' = some txIn' ∧ populated.utxoEntry inputIndex.toNat = some e ∧
    populated'.utxoEntry inputIndex'.toNat = some e' ∧ txIn.previousOutpoint = txIn'.previousOutpoint ∧
    e.scriptPublicKey = e'.scriptPublicKey ∧ e.amount = e'.amount

/-- The messages that a call with the type `SigHashAll` hashes. -/
def hashed (H : SigningHash) (tx : DomainTransaction) (populated : Populated) (inputIndex : ℤ) : Set (List UInt8) :=
  {bytes | (∃ field, bytes = message tx field) ∨ ∃ txIn e, GoSlice.index tx.inputs inputIndex = some txIn ∧
    populated.utxoEntry inputIndex.toNat = some e ∧
      bytes = signatureMessage tx txIn e sigHashAll (valueOf H tx inputIndex sigHashAll)}

variable {H : SigningHash} {populated populated' : Populated} {inputIndex inputIndex' : ℤ}

theorem schnorrHash_ok {hash : DomainHash} (h : schnorrHash H tx populated inputIndex sigHashAll = .ok hash) :
    ∃ txIn e, GoSlice.index tx.inputs inputIndex = some txIn ∧ populated.utxoEntry inputIndex.toNat = some e ∧
      hash = H.hash (signatureMessage tx txIn e sigHashAll (valueOf H tx inputIndex sigHashAll)) := by
  unfold schnorrHash at h
  rw [if_neg (by decide)] at h
  cases hin : GoSlice.index tx.inputs inputIndex with
  | none => simp [hin] at h
  | some txIn =>
    cases he : populated.utxoEntry inputIndex.toNat with
    | none => simp [hin, he] at h
    | some e =>
      simp only [hin, he] at h
      exact ⟨txIn, e, rfl, rfl, (Except.ok.inj h).symm⟩

theorem valueOf_lt (H : SigningHash) (tx : DomainTransaction) (inputIndex : ℤ) (field : ReusedField) :
    valueOf H tx inputIndex sigHashAll field < 2 ^ 256 := by
  have hpayload : (if tx.subnetworkID = subnetworkIDNative then zeroHash else H.hash (message tx .payloadHash)) <
      2 ^ 256 := by
    split_ifs
    · exact Nat.two_pow_pos 256
    · exact H.hash_lt _
  cases field with
  | payloadHash => exact hpayload
  | _ => exact H.hash_lt _

include h h' in
theorem signSame_of_hash (he : EntriesFit populated) (he' : EntriesFit populated')
    (hinjective : Set.InjOn H.hash (hashed H tx populated inputIndex ∪ hashed H tx' populated' inputIndex'))
    {hash : DomainHash} (hhash : schnorrHash H tx populated inputIndex sigHashAll = .ok hash)
    (hhash' : schnorrHash H tx' populated' inputIndex' sigHashAll = .ok hash) :
    SignSame tx tx' populated populated' inputIndex inputIndex' := by
  obtain ⟨txIn, e, hin, hentry, hmessage⟩ := schnorrHash_ok hhash
  obtain ⟨txIn', e', hin', hentry', hmessage'⟩ := schnorrHash_ok hhash'
  have hsame := same_of_signatureMessage h h' (GoSlice.mem_of_index hin) (GoSlice.mem_of_index hin')
    (valueOf_lt H tx inputIndex) (valueOf_lt H tx' inputIndex') he he' hentry hentry'
    (hinjective (.inl (.inr ⟨txIn, e, hin, hentry, rfl⟩)) (.inr (.inr ⟨txIn', e', hin', hentry', rfl⟩))
      (hmessage.symm.trans hmessage'))
  have hmessages : ∀ field, H.hash (message tx field) = H.hash (message tx' field) →
      message tx field = message tx' field := fun field heq =>
    hinjective (.inl (.inl ⟨field, rfl⟩)) (.inr (.inl ⟨field, rfl⟩)) heq
  have hvalue := fun field => congrFun hsame.hashes field
  refine ⟨hsame.version, outpoints_of_message h h' (hmessages _ (hvalue .previousOutputsHash)),
    sequences_of_message h h' (hmessages _ (hvalue .sequencesHash)),
    sigOpCounts_of_message h h' (hmessages _ (hvalue .sigOpCountsHash)),
    outputs_of_message h h' (hmessages _ (hvalue .outputsHash)), hsame.lockTime, hsame.subnetworkID, hsame.gas,
    fun hnative => ?_,
    txIn, txIn', e, e', hin, hin', hentry, hentry', hsame.outpoint, hsame.scriptPublicKey, hsame.amount⟩
  have hpayload := hvalue .payloadHash
  unfold valueOf at hpayload
  dsimp only at hpayload
  rw [if_neg hnative, if_neg (hsame.subnetworkID ▸ hnative)] at hpayload
  exact delimited_writeBytes.injective h.payload h'.payload (hmessages _ hpayload)

end

/-- The reused values after some calls on the transaction, the first one with fresh values. -/
def Reused (H : SigningHash) (tx : DomainTransaction) (populated : Populated) (reusedValues : SighashReusedValues) :
    Prop :=
  ∃ calls, reusedValues = ((calculateSignatureHashes H tx populated calls).run fresh).2

theorem Reused.coherent {H : SigningHash} {tx : DomainTransaction} {populated : Populated}
    {reusedValues : SighashReusedValues} (h : Reused H tx populated reusedValues) : Coherent H tx reusedValues := by
  obtain ⟨calls, rfl⟩ := h
  exact (gives_calculateSignatureHashes populated calls fresh coherent_fresh).2

/-- Calls with `SigHashAll` and the same hash sign the same, unless messages collide. -/
theorem calculateSignatureHashSchnorr_binds (H : SigningHash) (tx : DomainTransaction) (populated : Populated)
    (h : TransactionFits tx) (he : EntriesFit populated) :
    (∀ tx' populated' inputIndex inputIndex' reusedValues reusedValues' hash,
      TransactionFits tx' → EntriesFit populated' → Reused H tx populated reusedValues →
      Reused H tx' populated' reusedValues' →
      Set.InjOn H.hash (hashed H tx populated inputIndex ∪ hashed H tx' populated' inputIndex') →
      ((calculateSignatureHashSchnorr H tx populated inputIndex sigHashAll).run reusedValues).1 = .ok hash →
      ((calculateSignatureHashSchnorr H tx' populated' inputIndex' sigHashAll).run reusedValues').1 = .ok hash →
        SignSame tx tx' populated populated' inputIndex inputIndex') ∧
    (∀ calls, ((calculateSignatureHashes H tx populated calls).run fresh).1 =
      calls.map fun call => ((calculateSignatureHashSchnorr H tx populated call.1 call.2).run fresh).1) := by
  constructor
  · intro tx' populated' inputIndex inputIndex' reusedValues reusedValues' hash h' he' hreused hreused' hinjective
      hhash hhash'
    rw [(gives_calculateSignatureHashSchnorr populated inputIndex sigHashAll _ hreused.coherent).1] at hhash
    rw [(gives_calculateSignatureHashSchnorr populated' inputIndex' sigHashAll _ hreused'.coherent).1] at hhash'
    exact signSame_of_hash h h' he he' hinjective hhash hhash'
  · intro calls
    rw [(gives_calculateSignatureHashes populated calls fresh coherent_fresh).1]
    refine map_congr_left fun call _ => ?_
    rw [(gives_calculateSignatureHashSchnorr populated call.1 call.2 fresh coherent_fresh).1]

def sampleHash : SigningHash where
  hash bytes := decode bytes % (2 ^ 256 - 189)
  hash_lt bytes := (Nat.mod_lt _ (by norm_num)).trans (Nat.sub_lt (Nat.two_pow_pos 256) (by norm_num))

def sampleTransaction (payload signatureScript : List UInt8) : DomainTransaction where
  version := 0
  inputs := [⟨⟨5, 1⟩, signatureScript, 7, 1⟩]
  outputs := [⟨100, ⟨[0x51], 0⟩⟩]
  lockTime := 9
  subnetworkID := subnetworkIDNative
  gas := 0
  payload := payload
  id := 0

def samplePopulated : Populated := ⟨fun _ => some ⟨150, ⟨[0x52, 0x53], 0⟩, 3, false⟩, 0, 0⟩

variable {payload signatureScript : List UInt8}

theorem sampleTransaction_fits (h : payload.length < 2 ^ 64) :
    TransactionFits (sampleTransaction payload signatureScript) := by
  constructor <;> first | exact h | simp [sampleTransaction, DomainTransaction.outpoints, subnetworkIDNative]

theorem samplePopulated_fits : EntriesFit samplePopulated := by
  constructor <;>
  · intro i e h
    cases h
    decide

def sampleSignatureMessage (H : SigningHash) : List UInt8 :=
  signatureMessage (sampleTransaction [1] []) ⟨⟨5, 1⟩, [], 7, 1⟩ ⟨150, ⟨[0x52, 0x53], 0⟩, 3, false⟩ sigHashAll
    (valueOf H (sampleTransaction [1] []) 0 sigHashAll)

theorem signatureMessage_sampleTransaction (H : SigningHash) (payload signatureScript : List UInt8) :
    signatureMessage (sampleTransaction payload signatureScript) ⟨⟨5, 1⟩, signatureScript, 7, 1⟩
      ⟨150, ⟨[0x52, 0x53], 0⟩, 3, false⟩ sigHashAll
      (valueOf H (sampleTransaction payload signatureScript) 0 sigHashAll) = sampleSignatureMessage H := by
  have hvalue : valueOf H (sampleTransaction payload signatureScript) 0 sigHashAll =
      valueOf H (sampleTransaction [1] []) 0 sigHashAll := by
    funext field
    cases field <;> rfl
  rw [hvalue]
  rfl

theorem calculateSignatureHashSchnorr_sample (H : SigningHash) (payload signatureScript : List UInt8) :
    ((calculateSignatureHashSchnorr H (sampleTransaction payload signatureScript) samplePopulated 0 sigHashAll).run
      fresh).1 = .ok (H.hash (sampleSignatureMessage H)) := by
  rw [(gives_calculateSignatureHashSchnorr samplePopulated 0 sigHashAll fresh coherent_fresh).1,
    ← signatureMessage_sampleTransaction H payload signatureScript]
  rfl

def sampleMessages : List (List UInt8) :=
  [message (sampleTransaction [1] []) .previousOutputsHash, message (sampleTransaction [1] []) .sequencesHash,
    message (sampleTransaction [1] []) .sigOpCountsHash, message (sampleTransaction [1] []) .outputsHash,
    message (sampleTransaction [1] []) .payloadHash, message (sampleTransaction [2] []) .payloadHash,
    sampleSignatureMessage sampleHash]

theorem mem_sampleMessages {bytes : List UInt8} (hpayload : payload ∈ [[1], [2]])
    (h : bytes ∈ hashed sampleHash (sampleTransaction payload signatureScript) samplePopulated 0) :
    bytes ∈ sampleMessages := by
  unfold sampleMessages
  rcases h with ⟨field, rfl⟩ | ⟨txIn, e, hin, he, rfl⟩
  · simp only [mem_cons, not_mem_nil, or_false] at hpayload
    rcases hpayload with rfl | rfl <;> cases field <;> simp [message, sampleTransaction]
  cases hin
  cases he
  rw [signatureMessage_sampleTransaction]
  simp

theorem signSame_sampleTransaction : SignSame (sampleTransaction [1] []) (sampleTransaction [2] [0x41]) samplePopulated
    samplePopulated 0 0 := by
  have hcollision : ∀ bytes ∈ sampleMessages, ∀ bytes' ∈ sampleMessages,
      sampleHash.hash bytes = sampleHash.hash bytes' → bytes = bytes' := by
    decide +kernel
  have hfresh : ∀ tx, Reused sampleHash tx samplePopulated fresh := fun tx => ⟨[], rfl⟩
  refine (calculateSignatureHashSchnorr_binds sampleHash (sampleTransaction [1] []) samplePopulated
    (sampleTransaction_fits (by decide)) samplePopulated_fits).1 (sampleTransaction [2] [0x41]) samplePopulated 0 0 fresh
    fresh _ (sampleTransaction_fits (by decide)) samplePopulated_fits (hfresh _) (hfresh _) ?_
    (calculateSignatureHashSchnorr_sample _ _ _) (calculateSignatureHashSchnorr_sample _ _ _)
  intro bytes hbytes bytes' hbytes' heq
  refine hcollision bytes ?_ bytes' ?_ heq
  · exact hbytes.elim (mem_sampleMessages (by simp)) (mem_sampleMessages (by simp))
  · exact hbytes'.elim (mem_sampleMessages (by simp)) (mem_sampleMessages (by simp))

end Kaspad.SignatureHash
