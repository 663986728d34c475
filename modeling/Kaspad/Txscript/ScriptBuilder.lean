import Kaspad.Txscript.Engine

/-! # The script builder

`scriptbuilder.go` of `domain/consensus/utils/txscript`. A builder keeps the first error and ignores every call
after it.
-/

namespace Kaspad.Txscript
open Lib

inductive BuilderError
  /-- `ErrScriptNotCanonical` -/
  | scriptNotCanonical (description : String)
  /-- An index out of range, which stops the program. -/
  | outOfRange
  deriving DecidableEq, Repr

structure ScriptBuilder where
  script : List UInt8
  err : Option BuilderError
  deriving DecidableEq, Repr

namespace ScriptBuilder

def new : ScriptBuilder := ⟨[], none⟩

variable (b : ScriptBuilder)

def notCanonical (description : String) : ScriptBuilder :=
  { b with err := some (.scriptNotCanonical description) }

def append (bytes : List UInt8) : ScriptBuilder := { b with script := b.script ++ bytes }

def addOp (opcode : UInt8) : ScriptBuilder :=
  if b.err ≠ none then b
  else if b.script.length + 1 > maxScriptSize then
    b.notCanonical s!"adding an opcode would exceed the maximum allowed canonical script length of {maxScriptSize}"
  else b.append [opcode]

end ScriptBuilder

def canonicalDataSize (data : List UInt8) : ℕ :=
  if data.length = 0 then 1
  else if data.length = 1 ∧ data.headD 0 ≤ 16 then 1
  else if data.length = 1 ∧ data.headD 0 = 0x81 then 1
  else if data.length < opPushData1 then 1 + data.length
  else if data.length ≤ 0xff then 2 + data.length
  else if data.length ≤ 0xffff then 3 + data.length
  else 5 + data.length

def pushOf (data : List UInt8) : List UInt8 :=
  if data.length = 0 ∨ data.length = 1 ∧ data.headD 0 = 0 then [UInt8.ofNat op0]
  else if data.length = 1 ∧ data.headD 0 ≤ 16 then [UInt8.ofNat (op1 - 1) + data.headD 0]
  else if data.length = 1 ∧ data.headD 0 = 0x81 then [UInt8.ofNat op1Negate]
  else if data.length < opPushData1 then UInt8.ofNat data.length :: data
  else if data.length ≤ 0xff then UInt8.ofNat opPushData1 :: UInt8.ofNat data.length :: data
  else if data.length ≤ 0xffff then UInt8.ofNat opPushData2 :: (LittleEndian.encode 2 data.length ++ data)
  else UInt8.ofNat opPushData4 :: (LittleEndian.encode 4 data.length ++ data)

namespace ScriptBuilder
variable (b : ScriptBuilder)

def addData (data : List UInt8) : ScriptBuilder :=
  if b.err ≠ none then b
  else if b.script.length + canonicalDataSize data > maxScriptSize then
    b.notCanonical s!"adding {canonicalDataSize data} bytes of data would exceed the maximum allowed canonical script length of {maxScriptSize}"
  else if data.length > maxScriptElementSize then
    b.notCanonical s!"adding a data element of {data.length} bytes would exceed the maximum allowed script element size of {maxScriptElementSize}"
  else b.append (pushOf data)

def addInt64 (val : ℤ) : ScriptBuilder :=
  if b.err ≠ none then b
  else if b.script.length + 1 > maxScriptSize then
    b.notCanonical s!"adding an integer would exceed the maximum allow canonical script length of {maxScriptSize}"
  else if val = 0 then b.append [UInt8.ofNat op0]
  else if val = -1 ∨ 1 ≤ val ∧ val ≤ 16 then b.append [UInt8.ofNat (op1 - 1 + val).toNat]
  else
    match ScriptNum.bytes val with
    | .ok bytes => b.addData bytes
    | .error _ => { b with err := some .outOfRange }

/-- The loop that drops the zero bytes at the end. -/
def unpaddedSizeLoop (bytes : List UInt8) : ℕ → Except BuilderError ℕ
  | 0 => .error .outOfRange
  | unpaddedSize + 1 =>
    if bytes[unpaddedSize]? = some 0 then unpaddedSizeLoop bytes unpaddedSize else .ok (unpaddedSize + 1)

def addLockTimeOrSequence (lockTimeOrSequence : UInt64) : ScriptBuilder :=
  if b.err ≠ none then b
  else
    let bytes := LittleEndian.encode 8 lockTimeOrSequence.toNat
    match unpaddedSizeLoop bytes 8 with
    | .ok unpaddedSize => b.addData (bytes.take unpaddedSize)
    | .error e => { b with err := some e }

def addLockTimeNumber (lockTime : UInt64) : ScriptBuilder := b.addLockTimeOrSequence lockTime

def addSequenceNumber (sequence : UInt64) : ScriptBuilder := b.addLockTimeOrSequence sequence

def build : Except BuilderError (List UInt8) :=
  match b.err with
  | none => .ok b.script
  | some e => .error e

end ScriptBuilder
end Kaspad.Txscript
