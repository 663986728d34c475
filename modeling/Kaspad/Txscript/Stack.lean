import Kaspad.Lib.Prog
import Kaspad.Txscript.ScriptNum

/-! # The stacks of the engine

`stack.go` of `domain/consensus/utils/txscript`. A call that fails leaves what it has done to the stack.
-/

namespace Kaspad.Txscript
open Lib

def asBool : List UInt8 → Bool
  | [] => false
  | [b] => b ≠ 0 && b ≠ 0x80
  | b :: bs => b ≠ 0 || asBool bs

def fromBool (v : Bool) : List UInt8 := if v then [1] else []

def toInt32 (n : ℤ) : ℤ := n.bmod (2 ^ 32)

abbrev Stack := List (List UInt8)

namespace Stack

def depth (s : Stack) : ℤ := toInt32 s.length

def pushByteArray (so : List UInt8) : Prog Stack Failure Unit := modify (· ++ [so])

def pushInt (val : ScriptNum) : Prog Stack Failure Unit := do
  let bytes ← ofExcept val.bytes
  pushByteArray bytes

def pushBool (val : Bool) : Prog Stack Failure Unit := pushByteArray (fromBool val)

def invalidIndex {α : Type} (idx sz : ℤ) : Prog Stack Failure α :=
  throw (.scriptError .errInvalidStackOperation s!"index {idx} is invalid for stack size {sz}")

def nipped (stk : Stack) (sz idx : ℤ) : Except Failure Stack :=
  if idx = 0 then checked (GoSlice.slice stk 0 (sz - 1))
  else if idx = sz - 1 then checked (GoSlice.slice stk 1 stk.length)
  else do
    let s1 ← checked (GoSlice.slice stk (sz - idx) sz)
    let front ← checked (GoSlice.slice stk 0 (sz - idx - 1))
    pure (front ++ s1)

def nipN (idx : ℤ) : Prog Stack Failure (List UInt8) := do
  let stk ← get
  let sz := depth stk
  if idx < 0 ∨ idx > sz - 1 then invalidIndex idx sz
  else do
    let so ← ofExcept (checked (GoSlice.index stk (sz - idx - 1)))
    let rest ← ofExcept (nipped stk sz idx)
    set rest
    pure so

def popByteArray : Prog Stack Failure (List UInt8) := nipN 0

def popInt : Prog Stack Failure ScriptNum := do
  let so ← popByteArray
  ofExcept (makeScriptNum so defaultScriptNumLen)

def popBool : Prog Stack Failure Bool := do
  let so ← popByteArray
  pure (asBool so)

def peekByteArray (idx : ℤ) : Prog Stack Failure (List UInt8) := do
  let stk ← get
  let sz := depth stk
  if idx < 0 ∨ idx ≥ sz then invalidIndex idx sz
  else ofExcept (checked (GoSlice.index stk (sz - idx - 1)))

def removeN (idx : ℤ) : Prog Stack Failure Unit := discard (nipN idx)

def tuck : Prog Stack Failure Unit := do
  let so2 ← popByteArray
  let so1 ← popByteArray
  pushByteArray so2
  pushByteArray so1
  pushByteArray so2

def times (m : Prog Stack Failure Unit) : ℕ → Prog Stack Failure Unit
  | 0 => pure ()
  | n + 1 => do
    m
    times m n

def invalidCount {α : Type} (description : String) : Prog Stack Failure α :=
  throw (.scriptError .errInvalidStackOperation description)

def dropN (n : ℤ) : Prog Stack Failure Unit :=
  if n < 1 then invalidCount s!"attempt to drop {n} items from stack"
  else times (discard popByteArray) n.toNat

def copyToTop (idx : ℤ) : Prog Stack Failure Unit := do
  let so ← peekByteArray idx
  pushByteArray so

def moveToTop (idx : ℤ) : Prog Stack Failure Unit := do
  let so ← nipN idx
  pushByteArray so

def dupN (n : ℤ) : Prog Stack Failure Unit :=
  if n < 1 then invalidCount s!"attempt to dup {n} stack items" else times (copyToTop (n - 1)) n.toNat

def rotN (n : ℤ) : Prog Stack Failure Unit :=
  if n < 1 then invalidCount s!"attempt to rotate {n} stack items" else times (moveToTop (3 * n - 1)) n.toNat

def swapN (n : ℤ) : Prog Stack Failure Unit :=
  if n < 1 then invalidCount s!"attempt to swap {n} stack items" else times (moveToTop (2 * n - 1)) n.toNat

def overN (n : ℤ) : Prog Stack Failure Unit :=
  if n < 1 then invalidCount s!"attempt to perform over on {n} stack items"
  else times (copyToTop (2 * n - 1)) n.toNat

def pickN (n : ℤ) : Prog Stack Failure Unit := copyToTop n

def rollN (n : ℤ) : Prog Stack Failure Unit := moveToTop n

def getStack (s : Stack) : List (List UInt8) :=
  (List.range (depth s).toNat).reverse.map fun i : ℕ => ((peekByteArray i).exec s).1.toOption.getD []

def ignoreError (m : Prog Stack Failure Unit) : Prog Stack Failure Unit :=
  tryCatch m fun
    | .outOfRange => throw .outOfRange
    | .running => throw .running
    | _ => pure ()

def dropAll : Prog Stack Failure Unit := do
  let stk ← get
  ignoreError (dropN (depth stk))

def setStack (data : List (List UInt8)) : Prog Stack Failure Unit := do
  dropAll
  data.forM pushByteArray

end Stack
end Kaspad.Txscript
