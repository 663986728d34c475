import Kaspad.Lib.LittleEndian
import Kaspad.Lib.Meets
import Kaspad.Transaction

/-! # Serialization of UTXO entries

`domain/consensus/utils/utxo/serialization.go`: an outpoint and its entry as bytes, for the multiset of
the UTXO set.
-/

namespace Kaspad
open Lib LittleEndian List

inductive SerializationError
  /-- `io.EOF` or `io.ErrUnexpectedEOF` -/
  | unexpectedEOF
  /-- `in order to keep serialization canonical, true has to always be 0x01` -/
  | malformed
  /-- `make` panics on a length beyond the address space, and ends the process on one that memory does not have. -/
  | makeSlice (length : ℕ)
  deriving DecidableEq, Repr

/-! ## Writing -/

def serializeOutpoint (outpoint : DomainOutpoint) : List UInt8 :=
  encode 32 outpoint.transactionID ++ encode 4 outpoint.index

def serializeUTXOEntry (entry : UTXOEntry) : List UInt8 :=
  encode 8 entry.blockDAAScore ++ encode 8 entry.amount ++ encode 1 (if entry.isCoinbase then 1 else 0) ++
    encode 2 entry.scriptPublicKey.version ++ encode 8 entry.scriptPublicKey.script.length ++
    entry.scriptPublicKey.script

def serializeUTXO (entry : UTXOEntry) (outpoint : DomainOutpoint) : List UInt8 :=
  serializeOutpoint outpoint ++ serializeUTXOEntry entry

/-! ## Reading -/

def readElement (width : ℕ) (r : List UInt8) : Except SerializationError (ℕ × List UInt8) :=
  match read width r with
  | some result => .ok result
  | none => .error .unexpectedEOF

def readBool (r : List UInt8) : Except SerializationError (Bool × List UInt8) := do
  let (rv, r) ← readElement 1 r
  if rv = 0 then pure (false, r) else if rv = 1 then pure (true, r) else throw .malformed

def deserializeOutpoint (r : List UInt8) : Except SerializationError (DomainOutpoint × List UInt8) := do
  let (transactionID, r) ← readElement 32 r
  let (index, r) ← readElement 4 r
  pure (⟨transactionID, index⟩, r)

/-- `make([]byte, scriptPubKeyLen)` comes before the look at the remaining bytes; `maxAlloc` is what it can get. -/
def deserializeUTXOEntry (maxAlloc : ℕ) (r : List UInt8) : Except SerializationError (UTXOEntry × List UInt8) := do
  let (blockDAAScore, r) ← readElement 8 r
  let (amount, r) ← readElement 8 r
  let (isCoinbase, r) ← readBool r
  let (version, r) ← readElement 2 r
  let (scriptPubKeyLen, r) ← readElement 8 r
  if scriptPubKeyLen > maxAlloc then throw (.makeSlice scriptPubKeyLen)
  else if r.length < scriptPubKeyLen then throw .unexpectedEOF
  else pure (⟨amount, ⟨r.take scriptPubKeyLen, version⟩, blockDAAScore, isCoinbase⟩, r.drop scriptPubKeyLen)

def deserializeUTXO (maxAlloc : ℕ) (utxoBytes : List UInt8) : Except SerializationError (UTXOEntry × DomainOutpoint) := do
  let (outpoint, r) ← deserializeOutpoint utxoBytes
  let (entry, _) ← deserializeUTXOEntry maxAlloc r
  pure (entry, outpoint)

/-! ## Round trip -/

/-- The numbers of an outpoint and an entry, and the length of the script, are within their types. -/
structure InRange (outpoint : DomainOutpoint) (entry : UTXOEntry) : Prop where
  transactionID : outpoint.transactionID < 2 ^ 256
  index : outpoint.index < 2 ^ 32
  blockDAAScore : entry.blockDAAScore < 2 ^ 64
  amount : entry.amount < 2 ^ 64
  version : entry.scriptPublicKey.version < 2 ^ 16
  script : entry.scriptPublicKey.script.length < 2 ^ 64

theorem readElement_append {width n : ℕ} (h : n < 256 ^ width) (r : List UInt8) :
    readElement width (encode width n ++ r) = .ok (n, r) := by
  rw [readElement, read_append h]

theorem readBool_append (b : Bool) (r : List UInt8) : readBool (encode 1 (if b then 1 else 0) ++ r) = .ok (b, r) := by
  cases b
  · rw [readBool, readElement_append (by norm_num)]
    rfl
  rw [readBool, readElement_append (by norm_num)]
  rfl

variable {outpoint : DomainOutpoint} {entry : UTXOEntry}

theorem deserializeOutpoint_append (hid : outpoint.transactionID < 2 ^ 256)
    (hindex : outpoint.index < 2 ^ 32) (r : List UInt8) :
    deserializeOutpoint (serializeOutpoint outpoint ++ r) = .ok (outpoint, r) := by
  simp only [deserializeOutpoint, serializeOutpoint, append_assoc]
  rw [readElement_append (by norm_num; exact hid), ok_bind, readElement_append (by norm_num; exact hindex)]
  rfl

variable (h : InRange outpoint entry)
include h

section
variable {maxAlloc : ℕ} (hscript : entry.scriptPublicKey.script.length ≤ maxAlloc)
include hscript

theorem deserializeUTXOEntry_append (r : List UInt8) :
    deserializeUTXOEntry maxAlloc (serializeUTXOEntry entry ++ r) = .ok (entry, r) := by
  have hlen : entry.scriptPublicKey.script.length < 256 ^ 8 := h.script
  simp only [deserializeUTXOEntry, serializeUTXOEntry, append_assoc]
  rw [readElement_append (by norm_num; exact h.blockDAAScore), ok_bind,
    readElement_append (by norm_num; exact h.amount), ok_bind, readBool_append, ok_bind,
    readElement_append (by norm_num; exact h.version), ok_bind, readElement_append hlen, ok_bind]
  rw [if_neg (not_lt.mpr hscript), if_neg (by simp)]
  simp [pure, Except.pure]

theorem deserializeUTXO_serializeUTXO :
    deserializeUTXO maxAlloc (serializeUTXO entry outpoint) = .ok (entry, outpoint) := by
  have hentry := deserializeUTXOEntry_append h hscript []
  rw [append_nil] at hentry
  simp only [deserializeUTXO, serializeUTXO, deserializeOutpoint_append h.transactionID h.index, ok_bind, hentry]
  rfl

end

theorem serializeUTXO_injective {outpoint' : DomainOutpoint} {entry' : UTXOEntry} (h' : InRange outpoint' entry')
    (heq : serializeUTXO entry outpoint = serializeUTXO entry' outpoint') :
    outpoint = outpoint' ∧ entry = entry' := by
  have hread := deserializeUTXO_serializeUTXO h (le_max_left _ entry'.scriptPublicKey.script.length)
  rw [heq, deserializeUTXO_serializeUTXO h' (le_max_right _ _)] at hread
  cases hread
  exact ⟨rfl, rfl⟩

omit h

/-! ## Length fields that cannot be allocated -/

/-- A record whose length field, after a well-formed coinbase flag, asks for more than can be allocated. -/
def DeclaresHugeScript (maxAlloc : ℕ) (utxoBytes : List UInt8) : Prop :=
  63 ≤ utxoBytes.length ∧ decode ((utxoBytes.drop 52).take 1) ≤ 1 ∧ maxAlloc < decode ((utxoBytes.drop 55).take 8)

section
variable {α : Type} {n : ℕ} (maxAlloc : ℕ) (r : List UInt8)

theorem readElement_bind_eq_makeSlice (width : ℕ) (f : ℕ × List UInt8 → Except SerializationError α) :
    (readElement width r >>= f) = .error (.makeSlice n) ↔
      width ≤ r.length ∧ f (decode (r.take width), r.drop width) = .error (.makeSlice n) := by
  rw [readElement, LittleEndian.read, ← not_lt]
  split_ifs with hshort
  · simp [hshort]
  · simp [hshort]

theorem readBool_bind_eq_makeSlice (f : Bool × List UInt8 → Except SerializationError α) :
    (readBool r >>= f) = .error (.makeSlice n) ↔
      1 ≤ r.length ∧ decode (r.take 1) ≤ 1 ∧ f (decode (r.take 1) = 1, r.drop 1) = .error (.makeSlice n) := by
  rw [readBool, bind_assoc, readElement_bind_eq_makeSlice]
  refine and_congr_right fun _ => ?_
  obtain hzero | hone | hlarge : decode (r.take 1) = 0 ∨ decode (r.take 1) = 1 ∨ 1 < decode (r.take 1) := by omega
  · simp [hzero]
  · simp [hone]
  · simp [hlarge.not_ge, show decode (r.take 1) ≠ 0 by omega, hlarge.ne', throw, throwThe, MonadExceptOf.throw]

theorem deserializeUTXO_eq_makeSlice :
    (∃ n, deserializeUTXO maxAlloc r = .error (.makeSlice n)) ↔ DeclaresHugeScript maxAlloc r := by
  simp only [deserializeUTXO, deserializeOutpoint, deserializeUTXOEntry, bind_assoc, pure_bind,
    readElement_bind_eq_makeSlice, readBool_bind_eq_makeSlice, drop_drop, length_drop, Nat.reduceAdd,
    DeclaresHugeScript, throw, throwThe, MonadExceptOf.throw]
  generalize decode ((r.drop 55).take 8) = scriptPubKeyLen
  by_cases hhuge : maxAlloc < scriptPubKeyLen
  · simp only [hhuge, if_true, error_bind, Except.error.injEq, SerializationError.makeSlice.injEq]
    grind
  simp only [hhuge, if_false, and_false, iff_false, not_exists, not_and]
  intro n _ _ _ _ _ _ _ _
  split_ifs <;> simp [pure, Except.pure]

end

/-- Whatever `make` can allocate, the round trip and the injectivity hold, and reading fails to return exactly on the
records that declare more. -/
theorem utxo_serialization_exact (maxAlloc : ℕ) (utxoBytes : List UInt8) :
    (∀ outpoint entry, InRange outpoint entry → entry.scriptPublicKey.script.length ≤ maxAlloc →
      deserializeUTXO maxAlloc (serializeUTXO entry outpoint) = .ok (entry, outpoint)) ∧
    (∀ outpoint entry outpoint' entry', InRange outpoint entry → InRange outpoint' entry' →
      serializeUTXO entry outpoint = serializeUTXO entry' outpoint' → outpoint = outpoint' ∧ entry = entry') ∧
    ((∀ n, deserializeUTXO maxAlloc utxoBytes ≠ .error (.makeSlice n)) ↔ ¬ DeclaresHugeScript maxAlloc utxoBytes) := by
  refine ⟨fun _ _ h => deserializeUTXO_serializeUTXO h, fun _ _ _ _ h h' => serializeUTXO_injective h h', ?_⟩
  rw [← deserializeUTXO_eq_makeSlice, not_exists]

/-- A length field of `2 ^ 56` and no bytes after it, where `2 ^ 48` bytes can be addressed. -/
theorem deserializeUTXO_panics :
    deserializeUTXO (2 ^ 48) (List.replicate 62 0 ++ [1]) = .error (.makeSlice (2 ^ 56)) := by
  decide +kernel

end Kaspad
