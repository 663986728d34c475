import Kaspad.Txscript.Opcode
import Kaspad.Txscript.Stack

/-! # The script engine

`engine.go` and the opcode functions of `opcode.go` of `domain/consensus/utils/txscript`.
-/

namespace Kaspad.Txscript
open Lib TransactionValidator

def maxStackSize : ℕ := 244

def maxOpsPerScript : ℕ := 201

def maxScriptElementSize : ℕ := 520

def lockTimeThreshold : ℕ := 500000000000

def maxTxInSequenceNum : ℕ := 2 ^ 64 - 1

inductive OpCond
  | opCondFalse | opCondTrue | opCondSkip
  deriving DecidableEq, Repr

/-! ## Signatures and hashes -/

/-- A signature scheme of the package `secp256k1`, with the signature cache behind `verify`. -/
structure SignatureScheme where
  pubKeyLength : ℕ
  /-- the signature hash of an input, or nothing where it is an error -/
  calculateSignatureHash : DomainTransaction → ℤ → UInt8 → Option (List UInt8)
  deserializePubKey : List UInt8 → Option (List UInt8)
  deserializeSignature : List UInt8 → Option (List UInt8)
  verify : List UInt8 → List UInt8 → List UInt8 → Bool

structure Crypto where
  sha256 : List UInt8 → List UInt8
  blake2b : List UInt8 → List UInt8
  schnorr : SignatureScheme
  ecdsa : SignatureScheme
  length_sha256 : ∀ buf, (sha256 buf).length = 32
  length_blake2b : ∀ buf, (blake2b buf).length = 32
  schnorrLength : schnorr.pubKeyLength = 32
  ecdsaLength : ecdsa.pubKeyLength = 33

def isStandardSigHashType (sht : UInt8) : Bool := sht ∈ ([0x01, 0x02, 0x04, 0x81, 0x82, 0x84] : List UInt8)

def hexByte (b : UInt8) : String :=
  String.ofList (if b < 16 then [hexDigit b.toNat] else [hexDigit (b.toNat / 16), hexDigit (b.toNat % 16)])

def checkHashType (hashType : UInt8) : Except Failure Unit :=
  if isStandardSigHashType hashType then .ok ()
  else .error (.scriptError .errInvalidSigHashType s!"invalid hash type 0x{hexByte hashType}")

def checkSignatureLength (sig : List UInt8) : Except Failure Unit :=
  if sig.length ≠ 64 then .error (.scriptError .errSigLength s!"invalid signature length {sig.length}") else .ok ()

def SignatureScheme.checkPubKeyEncoding (scheme : SignatureScheme) (pubKey : List UInt8) : Except Failure Unit :=
  if pubKey.length = scheme.pubKeyLength then .ok ()
  else .error (.scriptError .errPubKeyFormat "unsupported public key type")

/-! ## The state -/

/-- With the number of signature verifications so far. -/
structure Engine where
  scriptVersion : ℕ
  scripts : List (List ParsedOpcode)
  scriptIdx : ℕ
  scriptOff : ℕ
  dstack : Stack
  astack : Stack
  tx : DomainTransaction
  txIdx : ℤ
  condStack : List OpCond
  numOps : ℤ
  isP2SH : Bool
  savedFirstStack : List (List UInt8)
  verifications : ℕ

abbrev Run (α : Type) := Prog Engine Failure α

namespace Engine

def dstackM {α : Type} (m : Prog Stack Failure α) : Run α :=
  Prog.zoom Engine.dstack (fun s vm => { vm with dstack := s }) m

def astackM {α : Type} (m : Prog Stack Failure α) : Run α :=
  Prog.zoom Engine.astack (fun s vm => { vm with astack := s }) m

def fail {α : Type} (code : ErrorCode) (description : String) : Run α := throw (.scriptError code description)

def isBranchExecuting (vm : Engine) : Bool :=
  match vm.condStack.getLast? with
  | none => true
  | some cond => cond = .opCondTrue

def countVerification : Run Unit := modify fun vm => { vm with verifications := vm.verifications + 1 }

def currentInput : Run DomainTransactionInput := do
  let vm ← get
  ofExcept (checked (GoSlice.index vm.tx.inputs vm.txIdx))

end Engine

open Engine Stack

variable (crypto : Crypto) (op : ParsedOpcode)

/-! ## Opcode functions -/

def opcodeDisabled : Run Unit := fail .errDisabledOpcode s!"attempt to execute disabled opcode {op.opcode.name}"

def opcodeReserved : Run Unit := fail .errReservedOpcode s!"attempt to execute reserved opcode {op.opcode.name}"

def opcodeInvalid : Run Unit := fail .errReservedOpcode s!"attempt to execute invalid opcode {op.opcode.name}"

def opcodeFalse : Run Unit := dstackM (pushByteArray [])

def opcodePushData : Run Unit := dstackM (pushByteArray op.data)

def opcode1Negate : Run Unit := dstackM (pushInt (-1))

def opcodeN : Run Unit := dstackM (pushInt (((op.opcode.value : ℤ) - (op1 - 1)) % 2 ^ 8))

def opcodeNop : Run Unit := pure ()

/-! ### Conditionals -/

def popIfBool : Run Bool := do
  let so ← dstackM popByteArray
  if so = [1] then pure true
  else if so.length = 0 then pure false
  else
    fail .errMinimalIf
      s!"with OP_IF or OP_NOTIF top stack item MUST be an empty byte array or 0x01, and is instead: {hex so}"

/-- The common part of `opcodeIf` and `opcodeNotIf`: the branch is taken where the top is `expected`. -/
def conditional (expected : Bool) : Run Unit := do
  let vm ← get
  if vm.isBranchExecuting then do
    let ok ← popIfBool
    let condVal := if ok = expected then OpCond.opCondTrue else .opCondFalse
    modify fun vm => { vm with condStack := vm.condStack ++ [condVal] }
  else modify fun vm => { vm with condStack := vm.condStack ++ [.opCondSkip] }

def opcodeIf : Run Unit := conditional true

def opcodeNotIf : Run Unit := conditional false

def noMatchingOpcode : Run Unit :=
  fail .errUnbalancedConditional
    s!"encountered opcode {op.opcode.name} with no matching opcode to begin conditional execution"

def invertCond : OpCond → OpCond
  | .opCondTrue => .opCondFalse
  | .opCondFalse => .opCondTrue
  | .opCondSkip => .opCondSkip

def opcodeElse : Run Unit := do
  let vm ← get
  match vm.condStack.getLast? with
  | none => noMatchingOpcode op
  | some cond => set { vm with condStack := vm.condStack.dropLast ++ [invertCond cond] }

def opcodeEndif : Run Unit := do
  let vm ← get
  if vm.condStack.length = 0 then noMatchingOpcode op
  else set { vm with condStack := vm.condStack.dropLast }

/-! ### Verification and lock times -/

def abstractVerify (c : ErrorCode) : Run Unit := do
  let verified ← dstackM popBool
  if verified then pure () else fail c s!"{op.opcode.name} failed"

def opcodeVerify : Run Unit := abstractVerify op .errVerify

def opcodeReturn : Run Unit := fail .errEarlyReturn "script returned early"

def verifyLockTime (txLockTime lockTime : ℕ) : Run Unit :=
  if lockTime > txLockTime then
    fail .errUnsatisfiedLockTime
      s!"locktime requirement not satisfied -- locktime is greater than the transaction locktime: {lockTime} > {txLockTime}"
  else pure ()

def verifyLockTimeThreshold (txLockTime threshold lockTime : ℕ) : Run Unit :=
  if ¬ ((txLockTime < threshold ∧ lockTime < threshold) ∨ (txLockTime ≥ threshold ∧ lockTime ≥ threshold)) then
    fail .errUnsatisfiedLockTime
      s!"mismatched locktime types -- tx locktime {txLockTime}, stack locktime {lockTime}"
  else pure ()

def verifyLockTimeWithThreshold (txLockTime threshold lockTime : ℕ) : Run Unit := do
  verifyLockTimeThreshold txLockTime threshold lockTime
  verifyLockTime txLockTime lockTime

def popUint64 (what : String) : Run ℕ := do
  let bytes ← dstackM popByteArray
  if bytes.length > 8 then fail .errNumberTooBig s!"{what} value represented as {hex bytes} is longer then 8 bytes"
  else pure (LittleEndian.decode (bytes ++ List.replicate (8 - bytes.length) 0))

def opcodeCheckLockTimeVerify : Run Unit := do
  let stackLockTime ← popUint64 "lockTime"
  let vm ← get
  verifyLockTimeWithThreshold vm.tx.lockTime lockTimeThreshold stackLockTime
  let input ← currentInput
  if input.sequence = maxTxInSequenceNum then fail .errUnsatisfiedLockTime "transaction input is finalized"
  else pure ()

def opcodeCheckSequenceVerify : Run Unit := do
  let stackSequence ← popUint64 "sequence"
  if stackSequence &&& sequenceLockTimeDisabled ≠ 0 then pure ()
  else do
    let input ← currentInput
    let txSequence := input.sequence
    if txSequence &&& sequenceLockTimeDisabled ≠ 0 then
      fail .errUnsatisfiedLockTime
        s!"transaction sequence has sequence locktime disabled bit set: 0x{String.ofList (Nat.toDigits 16 txSequence)}"
    else verifyLockTime (txSequence &&& sequenceLockTimeMask) (stackSequence &&& sequenceLockTimeMask)

/-! ### Stacks -/

def opcodeToAltStack : Run Unit := do
  let so ← dstackM popByteArray
  astackM (pushByteArray so)

def opcodeFromAltStack : Run Unit := do
  let so ← astackM popByteArray
  dstackM (pushByteArray so)

def opcode2Drop : Run Unit := dstackM (dropN 2)

def opcode2Dup : Run Unit := dstackM (dupN 2)

def opcode3Dup : Run Unit := dstackM (dupN 3)

def opcode2Over : Run Unit := dstackM (overN 2)

def opcode2Rot : Run Unit := dstackM (rotN 2)

def opcode2Swap : Run Unit := dstackM (swapN 2)

def opcodeIfDup : Run Unit := do
  let so ← dstackM (peekByteArray 0)
  if asBool so then dstackM (pushByteArray so) else pure ()

def opcodeDepth : Run Unit := do
  let vm ← get
  dstackM (pushInt (depth vm.dstack))

def opcodeDrop : Run Unit := dstackM (dropN 1)

def opcodeDup : Run Unit := dstackM (dupN 1)

def opcodeNip : Run Unit := dstackM (removeN 1)

def opcodeOver : Run Unit := dstackM (overN 1)

def opcodePick : Run Unit := do
  let val ← dstackM popInt
  dstackM (pickN val.int32)

def opcodeRoll : Run Unit := do
  let val ← dstackM popInt
  dstackM (rollN val.int32)

def opcodeRot : Run Unit := dstackM (rotN 1)

def opcodeSwap : Run Unit := dstackM (swapN 1)

def opcodeTuck : Run Unit := dstackM tuck

def opcodeSize : Run Unit := do
  let so ← dstackM (peekByteArray 0)
  dstackM (pushInt so.length)

def opcodeEqual : Run Unit := do
  let a ← dstackM popByteArray
  let b ← dstackM popByteArray
  dstackM (pushBool (a = b))

def andVerify (m : Run Unit) (c : ErrorCode) : Run Unit := do
  m
  abstractVerify op c

def opcodeEqualVerify : Run Unit := andVerify op opcodeEqual .errEqualVerify

/-! ### Numbers -/

def unary (f : ℤ → ℤ) : Run Unit := do
  let m ← dstackM popInt
  dstackM (pushInt (f m))

def binary (f : ℤ → ℤ → ℤ) : Run Unit := do
  let v0 ← dstackM popInt
  let v1 ← dstackM popInt
  dstackM (pushInt (f v0 v1))

def fromCond (p : Prop) [Decidable p] : ℤ := if p then 1 else 0

def opcode1Add : Run Unit := unary fun m => toInt64 (m + 1)

def opcode1Sub : Run Unit := unary fun m => toInt64 (m - 1)

def opcodeNegate : Run Unit := unary fun m => toInt64 (-m)

def opcodeAbs : Run Unit := unary fun m => if m < 0 then toInt64 (-m) else m

def opcodeNot : Run Unit := unary fun m => fromCond (m = 0)

def opcode0NotEqual : Run Unit := unary fun m => fromCond (m ≠ 0)

def opcodeAdd : Run Unit := binary fun v0 v1 => toInt64 (v0 + v1)

def opcodeSub : Run Unit := binary fun v0 v1 => toInt64 (v1 - v0)

def opcodeBoolAnd : Run Unit := binary fun v0 v1 => fromCond (v0 ≠ 0 ∧ v1 ≠ 0)

def opcodeBoolOr : Run Unit := binary fun v0 v1 => fromCond (v0 ≠ 0 ∨ v1 ≠ 0)

def opcodeNumEqual : Run Unit := binary fun v0 v1 => fromCond (v0 = v1)

def opcodeNumEqualVerify : Run Unit := andVerify op opcodeNumEqual .errNumEqualVerify

def opcodeNumNotEqual : Run Unit := binary fun v0 v1 => fromCond (v0 ≠ v1)

def opcodeLessThan : Run Unit := binary fun v0 v1 => fromCond (v1 < v0)

def opcodeGreaterThan : Run Unit := binary fun v0 v1 => fromCond (v1 > v0)

def opcodeLessThanOrEqual : Run Unit := binary fun v0 v1 => fromCond (v1 ≤ v0)

def opcodeGreaterThanOrEqual : Run Unit := binary fun v0 v1 => fromCond (v1 ≥ v0)

def opcodeMin : Run Unit := binary fun v0 v1 => if v1 < v0 then v1 else v0

def opcodeMax : Run Unit := binary fun v0 v1 => if v1 > v0 then v1 else v0

def opcodeWithin : Run Unit := do
  let maxVal ← dstackM popInt
  let minVal ← dstackM popInt
  let x ← dstackM popInt
  dstackM (pushInt (fromCond (x ≥ minVal ∧ x < maxVal)))

/-! ### Hashes and signatures -/

def hashTop (hash : List UInt8 → List UInt8) : Run Unit := do
  let buf ← dstackM popByteArray
  dstackM (pushByteArray (hash buf))

def opcodeSha256 : Run Unit := hashTop crypto.sha256

def opcodeBlake2b : Run Unit := hashTop crypto.blake2b

def checkSig (scheme : SignatureScheme) : Run Unit := do
  countVerification
  let pkBytes ← dstackM popByteArray
  let fullSigBytes ← dstackM popByteArray
  match fullSigBytes.getLast? with
  | none => dstackM (pushBool false)
  | some hashType => do
    let sigBytes := fullSigBytes.dropLast
    ofExcept (checkHashType hashType)
    ofExcept (checkSignatureLength sigBytes)
    ofExcept (scheme.checkPubKeyEncoding pkBytes)
    let vm ← get
    match scheme.calculateSignatureHash vm.tx vm.txIdx hashType, scheme.deserializePubKey pkBytes,
      scheme.deserializeSignature sigBytes with
    | some sigHash, some pubKey, some signature =>
      let valid := scheme.verify sigHash signature pubKey
      if ¬ valid ∧ sigBytes.length > 0 then fail .errNullFail "signature not empty on failed checksig"
      else dstackM (pushBool valid)
    | _, _, _ => dstackM (pushBool false)

def opcodeCheckSig : Run Unit := checkSig crypto.schnorr

def opcodeCheckSigECDSA : Run Unit := checkSig crypto.ecdsa

def opcodeCheckSigVerify : Run Unit := andVerify op (opcodeCheckSig crypto) .errCheckSigVerify

structure ParsedSigInfo where
  signature : List UInt8
  parsedSignature : Option (List UInt8)
  parsed : Bool

structure MultiSig where
  numSignatures : ℤ
  numPubKeys : ℤ
  pubKeyIdx : ℤ
  signatureIdx : ℤ
  signatures : List ParsedSigInfo

def parseSig (scheme : SignatureScheme) (sigInfo : ParsedSigInfo) (hashType : UInt8) (signature : List UInt8) :
    Except Failure ParsedSigInfo :=
  if sigInfo.parsed then .ok sigInfo
  else do
    checkHashType hashType
    checkSignatureLength signature
    pure { sigInfo with parsedSignature := scheme.deserializeSignature signature, parsed := true }

def verifyNext (scheme : SignatureScheme) (pubKeys : List (List UInt8)) (s : MultiSig) : Run MultiSig := do
  let sigInfo ← ofExcept (checked (GoSlice.index s.signatures s.signatureIdx))
  let pubKey ← ofExcept (checked (GoSlice.index pubKeys s.pubKeyIdx))
  match sigInfo.signature.getLast? with
  | none => pure s
  | some hashType => do
    let sigInfo ← ofExcept (parseSig scheme sigInfo hashType sigInfo.signature.dropLast)
    let s := { s with signatures := s.signatures.set s.signatureIdx.toNat sigInfo }
    match sigInfo.parsedSignature with
    | none => pure s
    | some parsedSig => do
      ofExcept (scheme.checkPubKeyEncoding pubKey)
      match scheme.deserializePubKey pubKey with
      | none => pure s
      | some parsedPubKey => do
        let vm ← get
        match scheme.calculateSignatureHash vm.tx vm.txIdx hashType with
        | none => throw .sigHash
        | some sigHash => do
          countVerification
          if scheme.verify sigHash parsedSig parsedPubKey then
            pure { s with signatureIdx := s.signatureIdx + 1, numSignatures := s.numSignatures - 1 }
          else pure s

def verifyLoop (scheme : SignatureScheme) (pubKeys : List (List UInt8)) : ℕ → MultiSig → Run Bool
  | rounds, s =>
    if s.numSignatures > 0 then
      match rounds with
      | 0 => throw .running
      | rounds + 1 => do
        let s := { s with pubKeyIdx := s.pubKeyIdx + 1, numPubKeys := s.numPubKeys - 1 }
        if s.numSignatures > s.numPubKeys then pure false
        else do
          let s ← verifyNext scheme pubKeys s
          verifyLoop scheme pubKeys rounds s
    else pure true

def popMany : ℕ → Run (List (List UInt8))
  | 0 => pure []
  | n + 1 => do
    let so ← dstackM popByteArray
    let rest ← popMany n
    pure (so :: rest)

def addOps (n : ℤ) : Run Unit := do
  modify fun vm => { vm with numOps := vm.numOps + n }
  let vm ← get
  if vm.numOps > maxOpsPerScript then
    fail .errTooManyOperations s!"exceeded max operation limit of {maxOpsPerScript}"
  else pure ()

def checkMultiSigOf (scheme : SignatureScheme) (numPubKeys : ℤ) : Run Unit :=
  if numPubKeys < 0 then fail .errInvalidPubKeyCount s!"number of pubkeys {numPubKeys} is negative"
  else if numPubKeys > maxPubKeysPerMultiSig then
    fail .errInvalidPubKeyCount s!"too many pubkeys: {numPubKeys} > {maxPubKeysPerMultiSig}"
  else do
    addOps numPubKeys
    let pubKeys ← popMany numPubKeys.toNat
    let numSigs ← dstackM popInt
    let numSignatures := numSigs.int32
    if numSignatures < 0 then fail .errInvalidSignatureCount s!"number of signatures {numSignatures} is negative"
    else if numSignatures > numPubKeys then
      fail .errInvalidSignatureCount s!"more signatures than pubkeys: {numSignatures} > {numPubKeys}"
    else do
      let signatures ← popMany numSignatures.toNat
      let success ← verifyLoop scheme pubKeys (numPubKeys.toNat + 1)
        ⟨numSignatures, numPubKeys + 1, -1, 0, signatures.map fun signature => ⟨signature, none, false⟩⟩
      if ¬ success ∧ signatures.any fun signature => signature.length > 0 then
        fail .errNullFail "not all signatures empty on failed checkmultisig"
      else dstackM (pushBool success)

def checkMultiSig (scheme : SignatureScheme) : Run Unit := do
  let numKeys ← dstackM popInt
  checkMultiSigOf scheme numKeys.int32

def opcodeCheckMultiSig : Run Unit := checkMultiSig crypto.schnorr

def opcodeCheckMultiSigECDSA : Run Unit := checkMultiSig crypto.ecdsa

def opcodeCheckMultiSigVerify : Run Unit := andVerify op (opcodeCheckMultiSig crypto) .errCheckMultiSigVerify

def OpFunc.call : OpFunc → Run Unit
  | .opcodeDisabled => Txscript.opcodeDisabled op
  | .opcodeReserved => Txscript.opcodeReserved op
  | .opcodeInvalid => Txscript.opcodeInvalid op
  | .opcodeFalse => Txscript.opcodeFalse
  | .opcodePushData => Txscript.opcodePushData op
  | .opcode1Negate => Txscript.opcode1Negate
  | .opcodeN => Txscript.opcodeN op
  | .opcodeNop => Txscript.opcodeNop
  | .opcodeIf => Txscript.opcodeIf
  | .opcodeNotIf => Txscript.opcodeNotIf
  | .opcodeElse => Txscript.opcodeElse op
  | .opcodeEndif => Txscript.opcodeEndif op
  | .opcodeVerify => Txscript.opcodeVerify op
  | .opcodeReturn => Txscript.opcodeReturn
  | .opcodeCheckLockTimeVerify => Txscript.opcodeCheckLockTimeVerify
  | .opcodeCheckSequenceVerify => Txscript.opcodeCheckSequenceVerify
  | .opcodeToAltStack => Txscript.opcodeToAltStack
  | .opcodeFromAltStack => Txscript.opcodeFromAltStack
  | .opcode2Drop => Txscript.opcode2Drop
  | .opcode2Dup => Txscript.opcode2Dup
  | .opcode3Dup => Txscript.opcode3Dup
  | .opcode2Over => Txscript.opcode2Over
  | .opcode2Rot => Txscript.opcode2Rot
  | .opcode2Swap => Txscript.opcode2Swap
  | .opcodeIfDup => Txscript.opcodeIfDup
  | .opcodeDepth => Txscript.opcodeDepth
  | .opcodeDrop => Txscript.opcodeDrop
  | .opcodeDup => Txscript.opcodeDup
  | .opcodeNip => Txscript.opcodeNip
  | .opcodeOver => Txscript.opcodeOver
  | .opcodePick => Txscript.opcodePick
  | .opcodeRoll => Txscript.opcodeRoll
  | .opcodeRot => Txscript.opcodeRot
  | .opcodeSwap => Txscript.opcodeSwap
  | .opcodeTuck => Txscript.opcodeTuck
  | .opcodeSize => Txscript.opcodeSize
  | .opcodeEqual => Txscript.opcodeEqual
  | .opcodeEqualVerify => Txscript.opcodeEqualVerify op
  | .opcode1Add => Txscript.opcode1Add
  | .opcode1Sub => Txscript.opcode1Sub
  | .opcodeNegate => Txscript.opcodeNegate
  | .opcodeAbs => Txscript.opcodeAbs
  | .opcodeNot => Txscript.opcodeNot
  | .opcode0NotEqual => Txscript.opcode0NotEqual
  | .opcodeAdd => Txscript.opcodeAdd
  | .opcodeSub => Txscript.opcodeSub
  | .opcodeBoolAnd => Txscript.opcodeBoolAnd
  | .opcodeBoolOr => Txscript.opcodeBoolOr
  | .opcodeNumEqual => Txscript.opcodeNumEqual
  | .opcodeNumEqualVerify => Txscript.opcodeNumEqualVerify op
  | .opcodeNumNotEqual => Txscript.opcodeNumNotEqual
  | .opcodeLessThan => Txscript.opcodeLessThan
  | .opcodeGreaterThan => Txscript.opcodeGreaterThan
  | .opcodeLessThanOrEqual => Txscript.opcodeLessThanOrEqual
  | .opcodeGreaterThanOrEqual => Txscript.opcodeGreaterThanOrEqual
  | .opcodeMin => Txscript.opcodeMin
  | .opcodeMax => Txscript.opcodeMax
  | .opcodeWithin => Txscript.opcodeWithin
  | .opcodeSha256 => Txscript.opcodeSha256 crypto
  | .opcodeBlake2b => Txscript.opcodeBlake2b crypto
  | .opcodeCheckSig => Txscript.opcodeCheckSig crypto
  | .opcodeCheckSigECDSA => Txscript.opcodeCheckSigECDSA crypto
  | .opcodeCheckSigVerify => Txscript.opcodeCheckSigVerify crypto op
  | .opcodeCheckMultiSig => Txscript.opcodeCheckMultiSig crypto
  | .opcodeCheckMultiSigECDSA => Txscript.opcodeCheckMultiSigECDSA crypto
  | .opcodeCheckMultiSigVerify => Txscript.opcodeCheckMultiSigVerify crypto op

/-! ## Execution -/

def executeOpcode : Run Unit :=
  if op.isDisabled then fail .errDisabledOpcode s!"attempt to execute disabled opcode {op.opcode.name}"
  else if op.alwaysIllegal then fail .errReservedOpcode s!"attempt to execute reserved opcode {op.opcode.name}"
  else do
    if op.opcode.value > op16 then addOps 1
    else if op.data.length > maxScriptElementSize then
      fail .errElementTooBig s!"element size {op.data.length} exceeds max allowed size {maxScriptElementSize}"
    else pure ()
    let vm ← get
    if ¬ vm.isBranchExecuting ∧ ¬ op.isConditional then pure ()
    else do
      if vm.isBranchExecuting ∧ op.opcode.value ≠ 0 ∧ op.opcode.value ≤ opPushData4 then
        ofExcept op.checkMinimalDataPush
      else pure ()
      op.opcode.opfunc.call crypto op

def fourDigits (n : ℕ) : String :=
  let digits := toString n
  String.ofList (List.replicate (4 - digits.length) '0') ++ digits

def validPC : Run Unit := do
  let vm ← get
  if vm.scriptIdx ≥ vm.scripts.length then
    fail .errInvalidProgramCounter
      s!"past input scripts {vm.scriptIdx}:{vm.scriptOff} {vm.scripts.length}:xxxx"
  else do
    let script ← ofExcept (checked (GoSlice.index vm.scripts vm.scriptIdx))
    if vm.scriptOff ≥ script.length then
      fail .errInvalidProgramCounter
        s!"past input scripts {vm.scriptIdx}:{vm.scriptOff} {vm.scriptIdx}:{fourDigits script.length}"
    else pure ()

def checkErrorCondition (finalScript : Bool) : Run Unit := do
  let vm ← get
  if vm.scriptIdx < vm.scripts.length then fail .errScriptUnfinished "error check when script unfinished"
  else if finalScript ∧ depth vm.dstack > 1 then
    fail .errCleanStack s!"stack contains {depth vm.dstack - 1} unexpected items"
  else if finalScript ∧ depth vm.dstack < 1 then
    fail .errEmptyStack "stack empty at end of script execution"
  else do
    let v ← dstackM popBool
    if v then pure () else fail .errEvalFalse "false stack entry at end of script execution"

def enterRedeemScript : Run Unit := do
  modify fun vm => { vm with scriptIdx := vm.scriptIdx + 1 }
  checkErrorCondition false
  let vm ← get
  let saved := vm.savedFirstStack
  let script ← ofExcept (checked (GoSlice.index saved (saved.length - 1)))
  let pops ← ofExcept (parsed script)
  modify fun vm => { vm with scripts := vm.scripts ++ [pops] }
  let rest ← ofExcept (checked (GoSlice.slice saved 0 (saved.length - 1)))
  dstackM (setStack rest)

def nextScript : Run Unit := do
  let vm ← get
  if vm.scriptIdx = 0 ∧ vm.isP2SH then
    modify fun vm => { vm with scriptIdx := vm.scriptIdx + 1, savedFirstStack := getStack vm.dstack }
  else if vm.scriptIdx = 1 ∧ vm.isP2SH then enterRedeemScript
  else modify fun vm => { vm with scriptIdx := vm.scriptIdx + 1 }

def skipEmptyScript : Run Unit := do
  let vm ← get
  if vm.scriptIdx < vm.scripts.length then do
    let script ← ofExcept (checked (GoSlice.index vm.scripts vm.scriptIdx))
    if vm.scriptOff ≥ script.length then modify fun vm => { vm with scriptIdx := vm.scriptIdx + 1 } else pure ()
  else pure ()

def endScript : Run Bool := do
  let vm ← get
  if vm.condStack.length ≠ 0 then
    fail .errUnbalancedConditional "end of script reached in conditional execution"
  else do
    astackM dropAll
    modify fun vm => { vm with numOps := 0, scriptOff := 0 }
    nextScript
    skipEmptyScript
    let vm ← get
    pure (vm.scriptIdx ≥ vm.scripts.length)

def checkStackSize : Run Unit := do
  let vm ← get
  let combinedStackSize := depth vm.dstack + depth vm.astack
  if combinedStackSize > maxStackSize then
    fail .errStackOverflow s!"combined stack size {combinedStackSize} > max allowed {maxStackSize}"
  else pure ()

def step : Run Bool := do
  validPC
  let vm ← get
  let script ← ofExcept (checked (GoSlice.index vm.scripts vm.scriptIdx))
  let opcode ← ofExcept (checked (GoSlice.index script vm.scriptOff))
  modify fun vm => { vm with scriptOff := vm.scriptOff + 1 }
  executeOpcode crypto opcode
  checkStackSize
  let vm ← get
  let script ← ofExcept (checked (GoSlice.index vm.scripts vm.scriptIdx))
  if vm.scriptOff ≥ script.length then endScript else pure false

def stepLoop : ℕ → Run Unit
  | 0 => throw .running
  | rounds + 1 => do
    let done ← step crypto
    if done then pure () else stepLoop rounds

def execute (rounds : ℕ) : Run Unit := do
  let vm ← get
  if vm.scriptVersion > maxScriptPublicKeyVersion then pure ()
  else do
    stepLoop crypto rounds
    checkErrorCondition true

def noTransaction : DomainTransaction := ⟨0, [], [], 0, 0, 0, [], 0⟩

def newEngine (scriptPubKey : ScriptPublicKey) (tx : DomainTransaction) (txIdx : ℤ) : Except Failure Engine :=
  if txIdx < 0 ∨ txIdx ≥ tx.inputs.length then
    .error (.scriptError .errInvalidIndex
      s!"transaction input index {txIdx} is negative or >= {tx.inputs.length}")
  else do
    let input ← checked (GoSlice.index tx.inputs txIdx)
    let scriptSig := input.signatureScript
    if scriptSig.length = 0 ∧ scriptPubKey.script.length = 0 then
      .error (.scriptError .errEvalFalse "false stack entry at end of script execution")
    else if scriptPubKey.version > maxScriptPublicKeyVersion then
      pure ⟨scriptPubKey.version, [], 0, 0, [], [], noTransaction, 0, [], 0, false, [], 0⟩
    else do
      let parsedScriptSig ← parseScriptAndVerifySize scriptSig
      if ¬ isPushOnly parsedScriptSig then
        .error (.scriptError .errNotPushOnly "signature script is not push only")
      else do
        let parsedScriptPubKey ← parseScriptAndVerifySize scriptPubKey.script
        if isScriptHash parsedScriptPubKey ∧ ¬ isPushOnly parsedScriptSig then
          .error (.scriptError .errNotPushOnly "pay to script hash is not push only")
        else
          pure ⟨scriptPubKey.version, [parsedScriptSig, parsedScriptPubKey], if scriptSig.length = 0 then 1 else 0, 0,
            [], [], tx, txIdx, [], 0, isScriptHash parsedScriptPubKey, [], 0⟩

end Kaspad.Txscript
