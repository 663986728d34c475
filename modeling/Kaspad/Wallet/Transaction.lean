import Kaspad.Txmass
import Kaspad.Txscript.ScriptBuilder

/-! # Wallet transactions

`keypair.go`, `transaction.go` and `sign.go` of `cmd/kaspawallet/libkaspawallet`, with the addresses of
`util/address.go`. The package `bip32` is a parameter: the strings of extended keys are an ordered type, in the
order of `strings.Compare`. The byte form that partially signed transactions are passed on in is left out.
-/

namespace Kaspad.Wallet
open Lib Txscript

/-! ## Addresses -/

inductive Address
  | publicKey (publicKey : List UInt8)
  | publicKeyECDSA (publicKey : List UInt8)
  | scriptHash (hash : List UInt8)
  deriving DecidableEq, Repr

inductive WalletError
  | bip32 (description : String)
  | script (error : BuilderError)
  | mass (panic : Calculator.MassPanic)
  /-- "The minimum amount of signatures (%d) is greater than the amount of provided public keys (%d)" -/
  | notEnoughKeys (minimumSignatures keys : ℕ)
  /-- "publicKey must be %d bytes" or "scriptHash must be %d bytes" -/
  | addressLength (expected : ℕ)
  /-- "missing %d signatures" -/
  | missingSignatures (count : ℕ)
  /-- "missing signature" -/
  | missingSignature
  /-- the error of `CalculateSignatureHash` or of the signature itself -/
  | cannotSign
  /-- "Public key doesn't match any of the transaction public keys" -/
  | noMatchingKey
  /-- "original transaction has %d outputs, while 1 or 2 are expected" -/
  | outputCount (count : ℕ)
  /-- "Transaction don't have enough funds to pay for the outputs" -/
  | notEnoughFunds
  /-- "setting --max-fee to %d results in a fee rate of %f, …" -/
  | feeRateTooLow (maxFee : ℕ)
  /-- "Insufficient funds for merge transaction" -/
  | insufficientFundsForMerge
  | rpc
  /-- an index out of range, or `make` with a negative length -/
  | outOfRange
  | divideByZero
  /-- the recursion is still running -/
  | running
  deriving DecidableEq, Repr

def ofBuilder (b : ScriptBuilder) : Except WalletError (List UInt8) := b.build.mapError .script

def payToAddrScript : Address → Except WalletError ScriptPublicKey
  | .publicKey publicKey => do
    let script ← ofBuilder ((ScriptBuilder.new.addData publicKey).addOp (UInt8.ofNat opCheckSig))
    pure ⟨script, 0⟩
  | .publicKeyECDSA publicKey => do
    let script ← ofBuilder ((ScriptBuilder.new.addData publicKey).addOp (UInt8.ofNat opCheckSigECDSA))
    pure ⟨script, 0⟩
  | .scriptHash hash => do
    let script ← ofBuilder (((ScriptBuilder.new.addOp (UInt8.ofNat opBlake2b)).addData hash).addOp
      (UInt8.ofNat opEqual))
    pure ⟨script, 0⟩

def newAddressPublicKey (publicKey : List UInt8) : Except WalletError Address :=
  if publicKey.length ≠ 32 then .error (.addressLength 32) else .ok (.publicKey publicKey)

def newAddressPublicKeyECDSA (publicKey : List UInt8) : Except WalletError Address :=
  if publicKey.length ≠ 33 then .error (.addressLength 33) else .ok (.publicKeyECDSA publicKey)

def newAddressScriptHash (blake2b : List UInt8 → List UInt8) (serializedScript : List UInt8) :
    Except WalletError Address :=
  if (blake2b serializedScript).length ≠ 32 then .error (.addressLength 32)
  else .ok (.scriptHash (blake2b serializedScript))

/-! ## Keys -/

structure Bip32 (KeyString ExtendedKey : Type) where
  deserializeExtendedKey : KeyString → Except WalletError ExtendedKey
  deriveFromPath : ExtendedKey → String → Except WalletError ExtendedKey
  string : ExtendedKey → KeyString
  serializedPublicKey : ExtendedKey → Bool → Except WalletError (List UInt8)
  length_serializedPublicKey : ∀ key ecdsa publicKey, serializedPublicKey key ecdsa = .ok publicKey →
    publicKey.length = if ecdsa then 33 else 32

section
variable {KeyString ExtendedKey : Type} (bip32 : Bip32 KeyString ExtendedKey)

def derivedKey (extendedPublicKey : KeyString) (path : String) : Except WalletError ExtendedKey := do
  let extendedKey ← bip32.deserializeExtendedKey extendedPublicKey
  bip32.deriveFromPath extendedKey path

def derivedPublicKey (extendedPublicKey : KeyString) (path : String) (ecdsa : Bool) :
    Except WalletError (List UInt8) := do
  let key ← derivedKey bip32 extendedPublicKey path
  bip32.serializedPublicKey key ecdsa

def multiSigOpcode (ecdsa : Bool) : UInt8 := UInt8.ofNat (if ecdsa then opCheckMultiSigECDSA else opCheckMultiSig)

def multiSigBuilder (publicKeys : List (List UInt8)) (minimumSignatures : ℕ) (ecdsa : Bool) : ScriptBuilder :=
  (((publicKeys.foldl ScriptBuilder.addData (ScriptBuilder.new.addInt64 minimumSignatures)).addInt64
    publicKeys.length).addOp (multiSigOpcode ecdsa))

def multiSigRedeemScript (extendedPublicKeys : List KeyString) (minimumSignatures : ℕ) (path : String)
    (ecdsa : Bool) : Except WalletError (List UInt8) := do
  let publicKeys ← extendedPublicKeys.mapM fun key => derivedPublicKey bip32 key path ecdsa
  ofBuilder (multiSigBuilder publicKeys minimumSignatures ecdsa)

def p2pkAddress (extendedPublicKey : KeyString) (path : String) (ecdsa : Bool) : Except WalletError Address := do
  let publicKey ← derivedPublicKey bip32 extendedPublicKey path ecdsa
  if ecdsa then newAddressPublicKeyECDSA publicKey else newAddressPublicKey publicKey

variable [LinearOrder KeyString]

def sortPublicKeys (extendedPublicKeys : List KeyString) : List KeyString :=
  extendedPublicKeys.insertionSort (· ≤ ·)

def address (blake2b : List UInt8 → List UInt8) (extendedPublicKeys : List KeyString) (minimumSignatures : ℕ)
    (path : String) (ecdsa : Bool) : Except WalletError Address :=
  let extendedPublicKeys := sortPublicKeys extendedPublicKeys
  if extendedPublicKeys.length < minimumSignatures then
    .error (.notEnoughKeys minimumSignatures extendedPublicKeys.length)
  else
    match extendedPublicKeys with
    | [extendedPublicKey] => p2pkAddress bip32 extendedPublicKey path ecdsa
    | extendedPublicKeys => do
      let redeemScript ← multiSigRedeemScript bip32 extendedPublicKeys minimumSignatures path ecdsa
      newAddressScriptHash blake2b redeemScript

end

/-! ## Partially signed transactions -/

structure PubKeySignaturePair (KeyString : Type) where
  extendedPublicKey : KeyString
  signature : Option (List UInt8)
  deriving DecidableEq

structure PartiallySignedInput (KeyString : Type) where
  prevOutput : DomainTransactionOutput
  minimumSignatures : ℕ
  pubKeySignaturePairs : List (PubKeySignaturePair KeyString)
  derivationPath : String
  deriving DecidableEq

structure PartiallySignedTransaction (KeyString : Type) where
  tx : DomainTransaction
  partiallySignedInputs : List (PartiallySignedInput KeyString)
  deriving DecidableEq

structure Payment where
  address : Address
  amount : ℕ
  deriving DecidableEq, Repr

structure UTXO where
  outpoint : DomainOutpoint
  utxoEntry : UTXOEntry
  derivationPath : String
  deriving DecidableEq, Repr

section
variable {KeyString ExtendedKey : Type} (bip32 : Bip32 KeyString ExtendedKey)
  (transactionID : DomainTransaction → DomainTransactionID)

def unsignedInput (extendedPublicKeys : List KeyString) (minimumSignatures : ℕ) (utxo : UTXO) :
    Except WalletError (PartiallySignedInput KeyString) := do
  let pairs ← extendedPublicKeys.mapM fun extendedPublicKey => do
    let key ← derivedKey bip32 extendedPublicKey utxo.derivationPath
    pure ⟨bip32.string key, none⟩
  pure ⟨⟨utxo.utxoEntry.amount, utxo.utxoEntry.scriptPublicKey⟩, minimumSignatures, pairs, utxo.derivationPath⟩

def paymentOutput (payment : Payment) : Except WalletError DomainTransactionOutput := do
  let scriptPublicKey ← payToAddrScript payment.address
  pure ⟨payment.amount, scriptPublicKey⟩

def unsignedTransaction (outpoints : List DomainOutpoint) (outputs : List DomainTransactionOutput) :
    DomainTransaction :=
  let tx : DomainTransaction :=
    { version := maxTransactionVersion
      inputs := outpoints.map fun outpoint => ⟨outpoint, [], 0, 0⟩
      outputs := outputs
      lockTime := 0
      subnetworkID := subnetworkIDNative
      gas := 0
      payload := []
      id := 0 }
  { tx with id := transactionID tx }

variable [LinearOrder KeyString]

def createUnsignedTransaction (extendedPublicKeys : List KeyString) (minimumSignatures : ℕ)
    (payments : List Payment) (selectedUTXOs : List UTXO) :
    Except WalletError (PartiallySignedTransaction KeyString) := do
  let inputs ← selectedUTXOs.mapM (unsignedInput bip32 (sortPublicKeys extendedPublicKeys) minimumSignatures)
  let outputs ← payments.mapM paymentOutput
  pure ⟨unsignedTransaction transactionID (selectedUTXOs.map (·.outpoint)) outputs, inputs⟩

end

/-! ## Signing and extraction -/

variable {KeyString ExtendedKey : Type} (bip32 : Bip32 KeyString ExtendedKey)

/-- `for i, input := range PartiallySignedInputs { … Tx.Inputs[i] … }`, where `update` gives what is assigned. -/
def updateInputs (update : PartiallySignedInput KeyString →
      Except WalletError (DomainTransactionInput → DomainTransactionInput)) :
    List (PartiallySignedInput KeyString) → List DomainTransactionInput →
      Except WalletError (List DomainTransactionInput)
  | [], inputs => pure inputs
  | psi :: psis, inputs => do
    let f ← update psi
    match inputs with
    | [] => throw .outOfRange
    | input :: inputs => do
      let rest ← updateInputs update psis inputs
      pure (f input :: rest)

def partiallySignedInputMultisigRedeemScript (input : PartiallySignedInput KeyString) (ecdsa : Bool) :
    Except WalletError (List UInt8) :=
  multiSigRedeemScript bip32 (input.pubKeySignaturePairs.map (·.extendedPublicKey)) input.minimumSignatures "m" ecdsa

def extractedScript (ecdsa : Bool) (input : PartiallySignedInput KeyString) : Except WalletError (List UInt8) :=
  if input.pubKeySignaturePairs.length > 1 then do
    let signatures := input.pubKeySignaturePairs.filterMap (·.signature)
    if signatures.length < input.minimumSignatures then
      throw (.missingSignatures (input.minimumSignatures - signatures.length))
    else do
      let redeemScript ← partiallySignedInputMultisigRedeemScript bip32 input ecdsa
      ofBuilder ((signatures.foldl ScriptBuilder.addData ScriptBuilder.new).addData redeemScript)
  else
    match input.pubKeySignaturePairs.head? with
    | none => throw .outOfRange
    | some pair =>
      match pair.signature with
      | none => throw .missingSignature
      | some signature => ofBuilder (ScriptBuilder.new.addData signature)

def prevEntry (psis : List (PartiallySignedInput KeyString)) (i : ℕ) : Option UTXOEntry :=
  psis[i]?.map fun input => ⟨input.prevOutput.value, input.prevOutput.scriptPublicKey, 0, false⟩

def extractTransactionDeserialized (pst : PartiallySignedTransaction KeyString) (ecdsa : Bool) :
    Except WalletError DomainTransaction := do
  let inputs ← updateInputs (fun psi => do
    let sigScript ← extractedScript bip32 ecdsa psi
    pure fun input => { input with signatureScript := sigScript }) pst.partiallySignedInputs pst.tx.inputs
  pure { pst.tx with inputs := inputs }

def setSigOpCounts (pst : PartiallySignedTransaction KeyString) : Except WalletError DomainTransaction := do
  let inputs ← updateInputs (fun psi =>
    pure fun input => { input with sigOpCount := psi.pubKeySignaturePairs.length % 256 })
    pst.partiallySignedInputs pst.tx.inputs
  pure { pst.tx with inputs := inputs }

end Kaspad.Wallet
