import Kaspad.Transaction

/-! # The UTXO diff algebra

`domain/consensus/utils/utxo/diff_algebra.go` and the operations of `mutable_utxo_diff.go` that do
not touch the bookkeeping of immutable references. In-place updates return the updated value.
-/

namespace Kaspad
open Lib UTXOCollection

structure MutableUTXODiff where
  toAdd : UTXOCollection
  toRemove : UTXOCollection
  deriving DecidableEq

/-- The rejections of the diff algebra; the outpoint is the one the error text names. -/
inductive DiffError
  /-- "diffFrom: outpoint %s both in this.toAdd and in other.toRemove" -/
  | diffFromRemovedAndAdded (offendingOutpoint : DomainOutpoint)
  /-- "diffFrom: outpoint %s both in this.toRemove and in other.toAdd" -/
  | diffFromAddedAndRemoved (offendingOutpoint : DomainOutpoint)
  /-- "diffFrom: outpoint %s both in this.toRemove and other.toRemove with different DAA scores,
  with no corresponding entry in this.toAdd" -/
  | diffFromRemovedTwice (offendingOutpoint : DomainOutpoint)
  /-- "diffFrom: outpoint both in this.toAdd, other.toAdd, and only one of this.toRemove and
  other.toRemove" -/
  | diffFromBaseDiffers
  /-- "withDiffInPlace: outpoint %s both in this.toRemove and in other.toRemove" -/
  | withDiffRemovedTwice (offendingOutpoint : DomainOutpoint)
  /-- "withDiffInPlace: outpoint %s both in this.toAdd and in other.toAdd" -/
  | withDiffAddedTwice (offendingOutpoint : DomainOutpoint)
  /-- "AddEntry: Cannot add outpoint %s twice" -/
  | addEntryTwice (outpoint : DomainOutpoint)
  /-- "removeEntry: Cannot remove outpoint %s twice" -/
  | removeEntryTwice (outpoint : DomainOutpoint)
  deriving DecidableEq, Repr

/-! ## Operations on two collections -/

def checkIntersection (collection1 collection2 : UTXOCollection) : Bool :=
  collection1.entries.any (fun e => collection2.contains e.1)

def checkIntersectionWithRule (collection1 collection2 : UTXOCollection)
    (extraRule : DomainOutpoint → UTXOEntry → UTXOEntry → Bool) : Option DomainOutpoint :=
  GoMap.findKey (fun outpoint utxoEntry =>
    match collection2.get outpoint with
    | some diffEntry => extraRule outpoint utxoEntry diffEntry
    | none => false) collection1

def intersectionWithRemainderHavingDAAScore (collection1 collection2 result remainder : UTXOCollection) :
    UTXOCollection × UTXOCollection :=
  (GoMap.addWhere (fun o e => collection2.containsWithDAAScore o e.blockDAAScore) collection1 result,
    GoMap.addWhere (fun o e => !collection2.containsWithDAAScore o e.blockDAAScore) collection1 remainder)

def subtractionHavingDAAScore (collection1 collection2 result : UTXOCollection) : UTXOCollection :=
  GoMap.addWhere (fun o e => !collection2.containsWithDAAScore o e.blockDAAScore) collection1 result

def subtractionWithRemainderHavingDAAScore (collection1 collection2 result remainder : UTXOCollection) :
    UTXOCollection × UTXOCollection :=
  (GoMap.addWhere (fun o e => !collection2.containsWithDAAScore o e.blockDAAScore) collection1 result,
    GoMap.addWhere (fun o e => collection2.containsWithDAAScore o e.blockDAAScore) collection1 remainder)

/-! ## `diffFrom` and `withDiff` -/

def isNotAddedOutputRemovedWithDAAScore (this other : MutableUTXODiff) (outpoint : DomainOutpoint)
    (utxoEntry diffEntry : UTXOEntry) : Bool :=
  !(diffEntry.blockDAAScore != utxoEntry.blockDAAScore &&
    (this.toAdd.containsWithDAAScore outpoint diffEntry.blockDAAScore ||
      other.toRemove.containsWithDAAScore outpoint utxoEntry.blockDAAScore))

def isNotRemovedOutputAddedWithDAAScore (this other : MutableUTXODiff) (outpoint : DomainOutpoint)
    (utxoEntry diffEntry : UTXOEntry) : Bool :=
  !(diffEntry.blockDAAScore != utxoEntry.blockDAAScore &&
    (this.toRemove.containsWithDAAScore outpoint diffEntry.blockDAAScore ||
      other.toAdd.containsWithDAAScore outpoint utxoEntry.blockDAAScore))

def diffFrom (this other : MutableUTXODiff) : Except DiffError MutableUTXODiff :=
  match checkIntersectionWithRule this.toRemove other.toAdd (isNotAddedOutputRemovedWithDAAScore this other) with
  | some offendingOutpoint => .error (.diffFromRemovedAndAdded offendingOutpoint)
  | none =>
  match checkIntersectionWithRule this.toAdd other.toRemove (isNotRemovedOutputAddedWithDAAScore this other) with
  | some offendingOutpoint => .error (.diffFromAddedAndRemoved offendingOutpoint)
  | none =>
  match checkIntersectionWithRule this.toRemove other.toRemove
      (fun _ utxoEntry diffEntry => utxoEntry.blockDAAScore != diffEntry.blockDAAScore) with
  | some offendingOutpoint => .error (.diffFromRemovedTwice offendingOutpoint)
  | none =>
  -- All transactions in this.toAdd: if they are not in other.toAdd, they go to result.toRemove.
  let (toRemove₁, inBothToAdd) := subtractionWithRemainderHavingDAAScore this.toAdd other.toAdd ∅ ∅
  if checkIntersection inBothToAdd this.toRemove != checkIntersection inBothToAdd other.toRemove then
    .error .diffFromBaseDiffers
  else
    let toRemove₂ := subtractionHavingDAAScore other.toRemove this.toRemove toRemove₁
    let toAdd₁ := subtractionHavingDAAScore this.toRemove other.toRemove ∅
    let toAdd₂ := subtractionHavingDAAScore other.toAdd this.toAdd toAdd₁
    .ok { toAdd := toAdd₂, toRemove := toRemove₂ }

def withDiffInPlace (this other : MutableUTXODiff) : Except DiffError MutableUTXODiff :=
  match checkIntersectionWithRule other.toRemove this.toRemove
      (fun outpoint entryToAdd _ => !this.toAdd.containsWithDAAScore outpoint entryToAdd.blockDAAScore) with
  | some offendingOutpoint => .error (.withDiffRemovedTwice offendingOutpoint)
  | none =>
  match checkIntersectionWithRule other.toAdd this.toAdd (fun outpoint _ existingEntry =>
        !other.toRemove.containsWithDAAScore outpoint existingEntry.blockDAAScore) with
  | some offendingOutpoint => .error (.withDiffAddedTwice offendingOutpoint)
  | none =>
  let (intersection₁, toRemove₁) :=
    intersectionWithRemainderHavingDAAScore other.toRemove this.toAdd ∅ this.toRemove
  let toAdd₁ := this.toAdd.removeMultiple intersection₁
  let (intersection₂, toAdd₂) := intersectionWithRemainderHavingDAAScore other.toAdd toRemove₁ ∅ toAdd₁
  let toRemove₂ := toRemove₁.removeMultiple intersection₂
  .ok { toAdd := toAdd₂, toRemove := toRemove₂ }

def withDiff (this diff : MutableUTXODiff) : Except DiffError MutableUTXODiff :=
  withDiffInPlace this diff

/-! ## Operations of a mutable diff -/

namespace MutableUTXODiff

def new : MutableUTXODiff := { toAdd := ∅, toRemove := ∅ }

def reversed (mud : MutableUTXODiff) : MutableUTXODiff :=
  { toAdd := mud.toRemove, toRemove := mud.toAdd }

def addEntry (mud : MutableUTXODiff) (outpoint : DomainOutpoint) (entry : UTXOEntry) :
    Except DiffError MutableUTXODiff :=
  if mud.toRemove.containsWithDAAScore outpoint entry.blockDAAScore then
    .ok { mud with toRemove := mud.toRemove.remove outpoint }
  else if mud.toAdd.contains outpoint then
    .error (.addEntryTwice outpoint)
  else
    .ok { mud with toAdd := mud.toAdd.add outpoint entry }

def removeEntry (mud : MutableUTXODiff) (outpoint : DomainOutpoint) (entry : UTXOEntry) :
    Except DiffError MutableUTXODiff :=
  if mud.toAdd.containsWithDAAScore outpoint entry.blockDAAScore then
    .ok { mud with toAdd := mud.toAdd.remove outpoint }
  else if mud.toRemove.contains outpoint then
    .error (.removeEntryTwice outpoint)
  else
    .ok { mud with toRemove := mud.toRemove.add outpoint entry }

def Same (d d' : MutableUTXODiff) : Prop :=
  GoMap.Same d.toAdd d'.toAdd ∧ GoMap.Same d.toRemove d'.toRemove

end MutableUTXODiff
end Kaspad
