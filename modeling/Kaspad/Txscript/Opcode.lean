import Kaspad.Txscript.ScriptNum

/-! # Opcodes and parsed scripts

The opcode table of `opcode.go` and `script.go` of `domain/consensus/utils/txscript`.
-/

namespace Kaspad.Txscript
open Lib

/-! ## The table -/

inductive OpFunc
  | opcodeDisabled | opcodeReserved | opcodeInvalid | opcodeFalse | opcodePushData | opcode1Negate | opcodeN
  | opcodeNop | opcodeIf | opcodeNotIf | opcodeElse | opcodeEndif | opcodeVerify | opcodeReturn
  | opcodeCheckLockTimeVerify | opcodeCheckSequenceVerify | opcodeToAltStack | opcodeFromAltStack | opcode2Drop
  | opcode2Dup | opcode3Dup | opcode2Over | opcode2Rot | opcode2Swap | opcodeIfDup | opcodeDepth | opcodeDrop
  | opcodeDup | opcodeNip | opcodeOver | opcodePick | opcodeRoll | opcodeRot | opcodeSwap | opcodeTuck
  | opcodeSize | opcodeEqual | opcodeEqualVerify | opcode1Add | opcode1Sub | opcodeNegate | opcodeAbs
  | opcodeNot | opcode0NotEqual | opcodeAdd | opcodeSub | opcodeBoolAnd | opcodeBoolOr | opcodeNumEqual
  | opcodeNumEqualVerify | opcodeNumNotEqual | opcodeLessThan | opcodeGreaterThan | opcodeLessThanOrEqual
  | opcodeGreaterThanOrEqual | opcodeMin | opcodeMax | opcodeWithin | opcodeSha256 | opcodeBlake2b
  | opcodeCheckSig | opcodeCheckSigECDSA | opcodeCheckSigVerify | opcodeCheckMultiSig
  | opcodeCheckMultiSigECDSA | opcodeCheckMultiSigVerify
  deriving DecidableEq, Repr

structure Opcode where
  value : ℕ
  name : String
  length : ℤ
  opfunc : OpFunc
  deriving DecidableEq, Repr

def op0 : ℕ := 0x00
def opData32 : ℕ := 0x20
def opPushData1 : ℕ := 0x4c
def opPushData2 : ℕ := 0x4d
def opPushData4 : ℕ := 0x4e
def op1Negate : ℕ := 0x4f
def op1 : ℕ := 0x51
def op16 : ℕ := 0x60
def opIf : ℕ := 0x63
def opNotIf : ℕ := 0x64
def opVerIf : ℕ := 0x65
def opVerNotIf : ℕ := 0x66
def opElse : ℕ := 0x67
def opEndIf : ℕ := 0x68
def opCat : ℕ := 0x7e
def opSubStr : ℕ := 0x7f
def opLeft : ℕ := 0x80
def opRight : ℕ := 0x81
def opInvert : ℕ := 0x83
def opAnd : ℕ := 0x84
def opOr : ℕ := 0x85
def opXor : ℕ := 0x86
def opEqual : ℕ := 0x87
def op2Mul : ℕ := 0x8d
def op2Div : ℕ := 0x8e
def opMul : ℕ := 0x95
def opDiv : ℕ := 0x96
def opMod : ℕ := 0x97
def opLShift : ℕ := 0x98
def opRShift : ℕ := 0x99
def opCheckMultiSigECDSA : ℕ := 0xa9
def opBlake2b : ℕ := 0xaa
def opCheckSigECDSA : ℕ := 0xab
def opCheckSig : ℕ := 0xac
def opCheckSigVerify : ℕ := 0xad
def opCheckMultiSig : ℕ := 0xae
def opCheckMultiSigVerify : ℕ := 0xaf

def operations : List (String × OpFunc) :=
  [("OP_NOP", .opcodeNop), ("OP_VER", .opcodeReserved), ("OP_IF", .opcodeIf), ("OP_NOTIF", .opcodeNotIf),
   ("OP_VERIF", .opcodeReserved), ("OP_VERNOTIF", .opcodeReserved), ("OP_ELSE", .opcodeElse),
   ("OP_ENDIF", .opcodeEndif), ("OP_VERIFY", .opcodeVerify), ("OP_RETURN", .opcodeReturn),
   ("OP_TOALTSTACK", .opcodeToAltStack), ("OP_FROMALTSTACK", .opcodeFromAltStack), ("OP_2DROP", .opcode2Drop),
   ("OP_2DUP", .opcode2Dup), ("OP_3DUP", .opcode3Dup), ("OP_2OVER", .opcode2Over), ("OP_2ROT", .opcode2Rot),
   ("OP_2SWAP", .opcode2Swap), ("OP_IFDUP", .opcodeIfDup), ("OP_DEPTH", .opcodeDepth), ("OP_DROP", .opcodeDrop),
   ("OP_DUP", .opcodeDup), ("OP_NIP", .opcodeNip), ("OP_OVER", .opcodeOver), ("OP_PICK", .opcodePick),
   ("OP_ROLL", .opcodeRoll), ("OP_ROT", .opcodeRot), ("OP_SWAP", .opcodeSwap), ("OP_TUCK", .opcodeTuck),
   ("OP_CAT", .opcodeDisabled), ("OP_SUBSTR", .opcodeDisabled), ("OP_LEFT", .opcodeDisabled),
   ("OP_RIGHT", .opcodeDisabled), ("OP_SIZE", .opcodeSize), ("OP_INVERT", .opcodeDisabled),
   ("OP_AND", .opcodeDisabled), ("OP_OR", .opcodeDisabled), ("OP_XOR", .opcodeDisabled),
   ("OP_EQUAL", .opcodeEqual), ("OP_EQUALVERIFY", .opcodeEqualVerify), ("OP_RESERVED1", .opcodeReserved),
   ("OP_RESERVED2", .opcodeReserved), ("OP_1ADD", .opcode1Add), ("OP_1SUB", .opcode1Sub),
   ("OP_2MUL", .opcodeDisabled), ("OP_2DIV", .opcodeDisabled), ("OP_NEGATE", .opcodeNegate),
   ("OP_ABS", .opcodeAbs), ("OP_NOT", .opcodeNot), ("OP_0NOTEQUAL", .opcode0NotEqual), ("OP_ADD", .opcodeAdd),
   ("OP_SUB", .opcodeSub), ("OP_MUL", .opcodeDisabled), ("OP_DIV", .opcodeDisabled), ("OP_MOD", .opcodeDisabled),
   ("OP_LSHIFT", .opcodeDisabled), ("OP_RSHIFT", .opcodeDisabled), ("OP_BOOLAND", .opcodeBoolAnd),
   ("OP_BOOLOR", .opcodeBoolOr), ("OP_NUMEQUAL", .opcodeNumEqual), ("OP_NUMEQUALVERIFY", .opcodeNumEqualVerify),
   ("OP_NUMNOTEQUAL", .opcodeNumNotEqual), ("OP_LESSTHAN", .opcodeLessThan),
   ("OP_GREATERTHAN", .opcodeGreaterThan), ("OP_LESSTHANOREQUAL", .opcodeLessThanOrEqual),
   ("OP_GREATERTHANOREQUAL", .opcodeGreaterThanOrEqual), ("OP_MIN", .opcodeMin), ("OP_MAX", .opcodeMax),
   ("OP_WITHIN", .opcodeWithin), ("OP_UNKNOWN166", .opcodeInvalid), ("OP_UNKNOWN167", .opcodeInvalid),
   ("OP_SHA256", .opcodeSha256), ("OP_CHECKMULTISIGECDSA", .opcodeCheckMultiSigECDSA),
   ("OP_BLAKE2B", .opcodeBlake2b), ("OP_CHECKSIGECDSA", .opcodeCheckSigECDSA), ("OP_CHECKSIG", .opcodeCheckSig),
   ("OP_CHECKSIGVERIFY", .opcodeCheckSigVerify), ("OP_CHECKMULTISIG", .opcodeCheckMultiSig),
   ("OP_CHECKMULTISIGVERIFY", .opcodeCheckMultiSigVerify), ("OP_CHECKLOCKTIMEVERIFY", .opcodeCheckLockTimeVerify),
   ("OP_CHECKSEQUENCEVERIFY", .opcodeCheckSequenceVerify)]

def undefinedName (instr : ℕ) : String :=
  if instr = 250 then "OP_SMALLINTEGER"
  else if instr = 251 then "OP_PUBKEYS"
  else if instr = 253 then "OP_PUBKEYHASH"
  else if instr = 254 then "OP_PUBKEY"
  else if instr = 255 then "OP_INVALIDOPCODE"
  else s!"OP_UNKNOWN{instr}"

/-- `opcodeArray`. The entries 178 to 187 state the values 188 to 197. -/
def opcodeArray (instr : ℕ) : Opcode :=
  if instr = op0 then ⟨instr, "OP_0", 1, .opcodeFalse⟩
  else if instr ≤ 75 then ⟨instr, s!"OP_DATA_{instr}", instr + 1, .opcodePushData⟩
  else if instr = opPushData1 then ⟨instr, "OP_PUSHDATA1", -1, .opcodePushData⟩
  else if instr = opPushData2 then ⟨instr, "OP_PUSHDATA2", -2, .opcodePushData⟩
  else if instr = opPushData4 then ⟨instr, "OP_PUSHDATA4", -4, .opcodePushData⟩
  else if instr = op1Negate then ⟨instr, "OP_1NEGATE", 1, .opcode1Negate⟩
  else if instr = 0x50 then ⟨instr, "OP_RESERVED", 1, .opcodeReserved⟩
  else if instr ≤ op16 then ⟨instr, s!"OP_{instr - (op1 - 1)}", 1, .opcodeN⟩
  else
    match operations[instr - 0x61]? with
    | some (name, opfunc) => ⟨instr, name, 1, opfunc⟩
    | none => ⟨if instr ≤ 187 then instr + 10 else instr, undefinedName instr, 1, .opcodeInvalid⟩

structure ParsedOpcode where
  instr : UInt8
  data : List UInt8
  deriving DecidableEq, Repr

namespace ParsedOpcode
variable (pop : ParsedOpcode)

def opcode : Opcode := opcodeArray pop.instr.toNat

def isDisabled : Bool :=
  pop.opcode.value ∈ [opCat, opSubStr, opLeft, opRight, opInvert, opAnd, opOr, opXor, op2Mul, op2Div, opMul, opDiv,
    opMod, opLShift, opRShift]

def alwaysIllegal : Bool := pop.opcode.value ∈ [opVerIf, opVerNotIf]

def isConditional : Bool := pop.opcode.value ∈ [opIf, opNotIf, opElse, opEndIf]

def notMinimal {α : Type} (what instead : String) : Except Failure α :=
  .error (.scriptError .errMinimalData s!"{what} encoded with opcode {pop.opcode.name} instead of {instead}")

def checkMinimalDataPush : Except Failure Unit :=
  let data := pop.data
  let dataLen := data.length
  let opcode := pop.opcode.value
  if dataLen = 0 ∧ opcode ≠ op0 then
    .error (.scriptError .errMinimalData
      s!"zero length data push is encoded with opcode {pop.opcode.name} instead of OP_0")
  else if dataLen = 1 ∧ data.all fun b => 1 ≤ b ∧ b ≤ 16 then
    let value := (data.headD 0).toNat
    if opcode ≠ op1 + value - 1 then pop.notMinimal s!"data push of the value {value}" s!"OP_{value}" else .ok ()
  else if dataLen = 1 ∧ data.all (· = 0x81) then
    if opcode ≠ op1Negate then pop.notMinimal "data push of the value -1" "OP_1NEGATE" else .ok ()
  else if dataLen ≤ 75 then
    if opcode ≠ dataLen then pop.notMinimal s!"data push of {dataLen} bytes" s!"OP_DATA_{dataLen}" else .ok ()
  else if dataLen ≤ 255 then
    if opcode ≠ opPushData1 then pop.notMinimal s!"data push of {dataLen} bytes" "OP_PUSHDATA1" else .ok ()
  else if dataLen ≤ 65535 then
    if opcode ≠ opPushData2 then pop.notMinimal s!"data push of {dataLen} bytes" "OP_PUSHDATA2" else .ok ()
  else .ok ()

end ParsedOpcode

/-! ## Parsing -/

def malformedPush {α : Type} (description : String) : Except Failure α :=
  .error (.scriptError .errMalformedPush description)

/-- The bytes from `off` on, lowest first. -/
def pushDataLength (script : List UInt8) (off : ℕ) (op : Opcode) : Except Failure ℕ :=
  if op.length = -1 ∨ op.length = -2 ∨ op.length = -4 then do
    let bytes ← checked (GoSlice.slice script off (off - op.length))
    pure (LittleEndian.decode bytes)
  else malformedPush s!"invalid opcode length {op.length}"

def parseOpcode (script : List UInt8) (i : ℕ) : Except Failure (ParsedOpcode × ℕ) := do
  let instr ← checked (GoSlice.index script i)
  let op := opcodeArray instr.toNat
  if op.length = 1 then pure (⟨instr, []⟩, i + 1)
  else if op.length > 1 then do
    let remaining ← checked (GoSlice.slice script i script.length)
    if remaining.length < op.length then
      malformedPush s!"opcode {op.name} requires {op.length} bytes, but script only has {remaining.length} remaining"
    else do
      let data ← checked (GoSlice.slice script (i + 1) (i + op.length))
      pure (⟨instr, data⟩, i + op.length.toNat)
  else if op.length < 0 then do
    let off := i + 1
    let remaining ← checked (GoSlice.slice script off script.length)
    if remaining.length < -op.length then
      malformedPush s!"opcode {op.name} requires {-op.length} bytes, but script only has {remaining.length} remaining"
    else do
      let l ← pushDataLength script off op
      let off := off + (-op.length).toNat
      let remaining ← checked (GoSlice.slice script off script.length)
      if l > remaining.length then
        malformedPush s!"opcode {op.name} pushes {l} bytes, but script only has {remaining.length} remaining"
      else do
        let data ← checked (GoSlice.slice script off (off + l))
        pure (⟨instr, data⟩, i + (1 - op.length).toNat + l)
  else pure (⟨instr, []⟩, i)

/-- The loop of `parseScriptTemplate`: the parsed opcodes, also the ones before an error. -/
def parseLoop (script : List UInt8) : ℕ → ℕ → List ParsedOpcode → List ParsedOpcode × Except Failure Unit
  | rounds, i, retScript =>
    if script.length ≤ i then (retScript, .ok ())
    else
      match rounds with
      | 0 => (retScript, .error .running)
      | rounds + 1 =>
        match parseOpcode script i with
        | .error e => (retScript, .error e)
        | .ok (pop, i) => parseLoop script rounds i (retScript ++ [pop])

def parseScript (script : List UInt8) : List ParsedOpcode × Except Failure Unit :=
  parseLoop script script.length 0 []

def parsed (script : List UInt8) : Except Failure (List ParsedOpcode) :=
  match parseScript script with
  | (pops, .ok ()) => .ok pops
  | (_, .error e) => .error e

def maxScriptSize : ℕ := 10000

def parseScriptAndVerifySize (script : List UInt8) : Except Failure (List ParsedOpcode) :=
  if script.length > maxScriptSize then
    .error (.scriptError .errScriptTooBig
      s!"script size {script.length} is larger than max allowed size {maxScriptSize}")
  else parsed script

/-! ## Kinds of scripts -/

def isScriptHash (pops : List ParsedOpcode) : Bool :=
  pops.map (·.opcode.value) = [opBlake2b, opData32, opEqual]

def isPushOnly (pops : List ParsedOpcode) : Bool := pops.all fun pop => pop.opcode.value ≤ op16

/-! ## Signature operations -/

def maxPubKeysPerMultiSig : ℕ := 20

def asSmallInt (op : Opcode) : ℕ := if op.value = op0 then 0 else op.value - (op1 - 1)

def sigOps (precise : Bool) (previous : Option ParsedOpcode) (pop : ParsedOpcode) : ℕ :=
  if pop.opcode.value ∈ [opCheckSig, opCheckSigVerify, opCheckSigECDSA] then 1
  else if pop.opcode.value ∈ [opCheckMultiSig, opCheckMultiSigVerify, opCheckMultiSigECDSA] then
    match previous with
    | some previous =>
      if precise ∧ op1 ≤ previous.opcode.value ∧ previous.opcode.value ≤ op16 then asSmallInt previous.opcode
      else maxPubKeysPerMultiSig
    | none => maxPubKeysPerMultiSig
  else 0

def sigOpLoop (precise : Bool) : Option ParsedOpcode → List ParsedOpcode → ℕ
  | _, [] => 0
  | previous, pop :: pops => sigOps precise previous pop + sigOpLoop precise (some pop) pops

def getSigOpCount (pops : List ParsedOpcode) (precise : Bool) : ℕ := sigOpLoop precise none pops

def getPreciseSigOpCount (scriptSig : List UInt8) (scriptPubKey : ScriptPublicKey) (isP2SH : Bool) : ℕ :=
  let pops := (parseScript scriptPubKey.script).1
  if ¬ (isP2SH ∧ isScriptHash pops) then getSigOpCount pops true
  else
    match parsed scriptSig with
    | .error _ => 0
    | .ok sigPops =>
      if ¬ isPushOnly sigPops then 0
      else
        match sigPops.getLast? with
        | none => 0
        | some last => if last.data.length = 0 then 0 else getSigOpCount (parseScript last.data).1 true

end Kaspad.Txscript
