import Kaspad.Lib.GoMap
import Mathlib.Algebra.GroupWithZero.Nat

/-! # Transactions and blocks

`externalapi.DomainTransaction` of `domain/consensus/model/externalapi/transaction.go` and the blocks made of them. The fields
here are the ones that a transaction keeps for its whole life; `Populated` holds the ones that
validation fills in later (`UTXOEntry` of each input, `Fee`, `Mass`).
-/

namespace Kaspad
open Lib

/-! ## UTXO entries and collections

The data of `domain/consensus/utils/utxo/utxo_entry.go` and `utxo_collection.go`, with the
outpoint, script and entry types of `model/externalapi`. Hashes and scores are compared and
copied only, so they are natural numbers; amounts are exact here and bounded where a check of the
source bounds them.
-/

/-- `externalapi.DomainHash`: 32 bytes, ordered as the number they spell. -/
abbrev DomainHash := ℕ

abbrev DomainTransactionID := DomainHash

structure DomainOutpoint where
  transactionID : DomainTransactionID
  index : ℕ
  deriving DecidableEq, Repr

structure ScriptPublicKey where
  script : List UInt8
  version : ℕ
  deriving DecidableEq, Repr

structure UTXOEntry where
  amount : ℕ
  scriptPublicKey : ScriptPublicKey
  blockDAAScore : ℕ
  isCoinbase : Bool
  deriving DecidableEq, Repr

abbrev UTXOCollection := GoMap DomainOutpoint UTXOEntry

namespace UTXOCollection

def get (uc : UTXOCollection) (outpoint : DomainOutpoint) : Option UTXOEntry := uc.lookup outpoint

def contains (uc : UTXOCollection) (outpoint : DomainOutpoint) : Bool := (uc.lookup outpoint).isSome

def add (uc : UTXOCollection) (outpoint : DomainOutpoint) (entry : UTXOEntry) : UTXOCollection :=
  uc.insert outpoint entry

def remove (uc : UTXOCollection) (outpoint : DomainOutpoint) : UTXOCollection := uc.erase outpoint

def removeMultiple (uc collectionToRemove : UTXOCollection) : UTXOCollection :=
  GoMap.eraseKeys collectionToRemove uc

def containsWithDAAScore (uc : UTXOCollection) (outpoint : DomainOutpoint) (daaScore : ℕ) : Bool :=
  match uc.lookup outpoint with
  | some entry => entry.blockDAAScore == daaScore
  | none => false

end UTXOCollection
abbrev DomainSubnetworkID := ℕ

structure DomainTransactionInput where
  previousOutpoint : DomainOutpoint
  signatureScript : List UInt8
  sequence : ℕ
  sigOpCount : ℕ
  deriving DecidableEq, Repr

structure DomainTransactionOutput where
  value : ℕ
  scriptPublicKey : ScriptPublicKey
  deriving DecidableEq, Repr

/-- `id` is `consensushashing.TransactionID`, which the source computes once and caches. -/
structure DomainTransaction where
  version : ℕ
  inputs : List DomainTransactionInput
  outputs : List DomainTransactionOutput
  lockTime : ℕ
  subnetworkID : DomainSubnetworkID
  gas : ℕ
  payload : List UInt8
  id : DomainTransactionID
  deriving DecidableEq, Repr

namespace DomainTransaction

def outpoints (tx : DomainTransaction) : List DomainOutpoint :=
  tx.inputs.map (·.previousOutpoint)

def outpoint (tx : DomainTransaction) (i : ℕ) : DomainOutpoint := ⟨tx.id, i⟩

end DomainTransaction

/-- The UTXO entry of each input (`none` for nil), the fee and the mass (0 for not computed yet). -/
structure Populated where
  utxoEntry : ℕ → Option UTXOEntry
  fee : ℕ
  mass : ℕ

def unacceptedDAAScore : ℕ := 2 ^ 64 - 1

def sompiPerKaspa : ℕ := 100000000

def maxSompi : ℕ := 29000000000 * sompiPerKaspa

def maxTransactionVersion : ℕ := 0

def maxScriptPublicKeyVersion : ℕ := 0

/-! ## Arithmetic of `uint64`, which wraps -/

def add64 (a b : ℕ) : ℕ := (a + b) % 2 ^ 64

def sub64 (a b : ℕ) : ℕ := (a + 2 ^ 64 - b % 2 ^ 64) % 2 ^ 64

/-! ## Subnetworks -/

def subnetworkIDNative : DomainSubnetworkID := 0

def subnetworkIDCoinbase : DomainSubnetworkID := 1

def subnetworkIDRegistry : DomainSubnetworkID := 2

def isBuiltIn (id : DomainSubnetworkID) : Bool := id = subnetworkIDCoinbase || id = subnetworkIDRegistry

def isBuiltInOrNative (id : DomainSubnetworkID) : Bool := id = subnetworkIDNative || isBuiltIn id

def isCoinBase (tx : DomainTransaction) : Bool := tx.subnetworkID = subnetworkIDCoinbase

/-- The fields that the validation of a body and of its UTXO reads. -/
structure BlockHeader where
  hashMerkleRoot : DomainHash
  acceptedIDMerkleRoot : DomainHash
  utxoCommitment : DomainHash
  daaScore : ℕ
  blueScore : ℕ
  deriving DecidableEq, Repr

structure DomainBlock where
  header : BlockHeader
  transactions : List DomainTransaction
  deriving DecidableEq, Repr

end Kaspad
