import Kaspad.Lib.LittleEndian
import Kaspad.UTXO.DiffAlgebra

/-! # The store of the UTXO index

`domain/utxoindex/store.go` and `utxoindex.go`. The records of the index, the circulating supply and
the virtual parents are entries of one database whose keys do not meet; the virtual parents, which only
`isSynced` reads, are left out. A record is the entry itself, as every value is written by
`serializeUTXOEntry`.
-/

namespace Kaspad.UTXOIndex
open Lib List LittleEndian

/-! ## The database keys of the UTXO index

`infrastructure/db/database/keys.go`, and the keys of `domain/utxoindex/store.go`. The bytes of a script
public key are the name of a bucket; the name ends with a separator byte, which is added unless it is
there already.
-/

/-! ## Buckets -/

def bucketSeparator : UInt8 := 0x2f

structure Bucket where
  path : List UInt8

def makeBucket (path : List UInt8) : Bucket :=
  if path.length > 0 ∧ path.getLast? ≠ some bucketSeparator then ⟨path ++ [bucketSeparator]⟩ else ⟨path⟩

def Bucket.bucket (b : Bucket) (bucketBytes : List UInt8) : Bucket := makeBucket (b.path ++ bucketBytes)

def Bucket.key (b : Bucket) (suffix : List UInt8) : List UInt8 := b.path ++ suffix

def Bucket.Covers (b : Bucket) (key : List UInt8) : Prop := b.path <+: key

instance (b : Bucket) (key : List UInt8) : Decidable (b.Covers key) :=
  inferInstanceAs (Decidable (b.path <+: key))

/-! ## The buckets of the index -/

def utxoIndexBucket : Bucket := makeBucket [0x75, 0x74, 0x78, 0x6f, 0x2d, 0x69, 0x6e, 0x64, 0x65, 0x78]

def scriptPublicKeyString (s : ScriptPublicKey) : List UInt8 := LittleEndian.encode 2 s.version ++ s.script

def newScriptPublicKeyFromString (string : List UInt8) : ScriptPublicKey :=
  ⟨string.drop 2, LittleEndian.decode (string.take 2)⟩

def bucketForScriptPublicKey (s : ScriptPublicKey) : Bucket :=
  utxoIndexBucket.bucket (LittleEndian.encode 2 s.version ++ s.script)

theorem scriptPublicKeyString_injective {s s' : ScriptPublicKey} (h : s.version < 2 ^ 16)
    (h' : s'.version < 2 ^ 16) (heq : scriptPublicKeyString s = scriptPublicKeyString s') : s = s' := by
  obtain ⟨hversion, hscript⟩ := append_inj heq (by simp)
  have hdecode := congrArg LittleEndian.decode hversion
  rw [decode_encode_of_lt (by norm_num; exact h),
    decode_encode_of_lt (by norm_num; exact h')] at hdecode
  cases s
  cases s'
  simp_all

/-- The part of the path of a script public key that is its own: its bytes, with a separator at the
end. -/
def directory (string : List UInt8) : List UInt8 :=
  if string.getLast? ≠ some bucketSeparator then string ++ [bucketSeparator] else string

theorem path_eq (s : ScriptPublicKey) :
    (bucketForScriptPublicKey s).path = utxoIndexBucket.path ++ directory (scriptPublicKeyString s) := by
  have hne : scriptPublicKeyString s ≠ [] := by
    intro h
    have hlength := congrArg List.length h
    simp [scriptPublicKeyString] at hlength
  have hlast : (utxoIndexBucket.path ++ scriptPublicKeyString s).getLast? = (scriptPublicKeyString s).getLast? :=
    List.getLast?_append_of_ne_nil _ hne
  have hbucket : (bucketForScriptPublicKey s).path =
      (makeBucket (utxoIndexBucket.path ++ scriptPublicKeyString s)).path := rfl
  rw [hbucket]
  unfold makeBucket directory
  by_cases h : (scriptPublicKeyString s).getLast? ≠ some bucketSeparator
  · have hpos : (utxoIndexBucket.path ++ scriptPublicKeyString s).length > 0 := by
      simp [length_pos_iff.mpr hne]
    rw [if_pos ⟨hpos, hlast ▸ h⟩, if_pos h]
    exact append_assoc _ _ _
  · rw [if_neg fun hand => h (hlast ▸ hand.2), if_neg h]

theorem prefix_append_iff {α : Type} (l l₁ l₂ : List α) :
    l <+: l₁ ++ l₂ ↔ l <+: l₁ ∨ ∃ rest, rest ≠ [] ∧ l = l₁ ++ rest ∧ rest <+: l₂ := by
  constructor
  · rintro ⟨t, ht⟩
    rcases append_eq_append_iff.mp ht with ⟨rest, hl₁, -⟩ | ⟨rest, hl, hl₂⟩
    · exact .inl ⟨rest, hl₁.symm⟩
    by_cases hrest : rest = []
    · subst hrest
      exact .inl (by simp [hl])
    · exact .inr ⟨rest, hrest, hl, t, hl₂.symm⟩
  · rintro (h | ⟨rest, -, rfl, h⟩)
    · exact h.trans (prefix_append _ _)
    · exact (prefix_append_right_inj l₁).mpr h

theorem append_separator_inj {l l' t t' : List UInt8} (h : bucketSeparator ∉ l) (h' : bucketSeparator ∉ l')
    (heq : l ++ bucketSeparator :: t = l' ++ bucketSeparator :: t') : l = l' := by
  induction l generalizing l' with
  | nil =>
    cases l' with
    | nil => rfl
    | cons b l' => exact absurd (List.cons.inj heq).1 fun hb => h' (by simp [← hb])
  | cons a l ih =>
    cases l' with
    | nil => exact absurd (List.cons.inj heq).1 fun hb => h (by simp [hb])
    | cons b l' =>
      obtain ⟨rfl, htail⟩ := List.cons.inj heq
      rw [ih (fun hl => h (mem_cons_of_mem _ hl)) (fun hl => h' (mem_cons_of_mem _ hl)) htail]

/-! ## The keys -/

structure OutpointFits (o : DomainOutpoint) : Prop where
  transactionID : o.transactionID < 2 ^ 256
  index : o.index < 2 ^ 32

/-- `proto.Marshal` and `proto.Unmarshal` of a `DbOutpoint`. -/
class OutpointCodec where
  marshal : DomainOutpoint → List UInt8
  unmarshal : List UInt8 → Option DomainOutpoint
  unmarshal_marshal : ∀ o, OutpointFits o → unmarshal (marshal o) = some o

section
variable [OutpointCodec]

def serializeOutpoint (o : DomainOutpoint) : List UInt8 := OutpointCodec.marshal o

def deserializeOutpoint (bytes : List UInt8) : Option DomainOutpoint := OutpointCodec.unmarshal bytes

def convertOutpointToKey (bucket : Bucket) (o : DomainOutpoint) : List UInt8 := bucket.key (serializeOutpoint o)

def keyOf (s : ScriptPublicKey) (o : DomainOutpoint) : List UInt8 :=
  convertOutpointToKey (bucketForScriptPublicKey s) o

theorem deserializeOutpoint_serializeOutpoint {o : DomainOutpoint} (h : OutpointFits o) :
    deserializeOutpoint (serializeOutpoint o) = some o := OutpointCodec.unmarshal_marshal o h

theorem serializeOutpoint_injective {o o' : DomainOutpoint} (h : OutpointFits o) (h' : OutpointFits o')
    (heq : serializeOutpoint o = serializeOutpoint o') : o = o' := by
  have hread := deserializeOutpoint_serializeOutpoint h
  rw [heq, deserializeOutpoint_serializeOutpoint h'] at hread
  exact (Option.some.inj hread).symm

/-! ## Which keys a cursor meets -/

/-- The directory of `s'` lies in that of `s`, or that of `s` goes on with the first bytes of the outpoint. -/
def Collides (s s' : ScriptPublicKey) (o : DomainOutpoint) : Prop :=
  directory (scriptPublicKeyString s) <+: directory (scriptPublicKeyString s') ∨
    ∃ rest, rest ≠ [] ∧ directory (scriptPublicKeyString s) = directory (scriptPublicKeyString s') ++ rest ∧
      rest <+: serializeOutpoint o

theorem covers_keyOf_iff (s s' : ScriptPublicKey) (o : DomainOutpoint) :
    (bucketForScriptPublicKey s).Covers (keyOf s' o) ↔ Collides s s' o := by
  unfold Bucket.Covers keyOf convertOutpointToKey Bucket.key Collides
  rw [path_eq, path_eq, append_assoc, prefix_append_right_inj, prefix_append_iff]

theorem not_collides_of_no_separator {s s' : ScriptPublicKey} (hversion : s.version < 2 ^ 16)
    (hversion' : s'.version < 2 ^ 16) (h : bucketSeparator ∉ scriptPublicKeyString s)
    (h' : bucketSeparator ∉ scriptPublicKeyString s') (hne : s ≠ s') (o : DomainOutpoint) : ¬ Collides s s' o := by
  have hdirectory : ∀ l : List UInt8, bucketSeparator ∉ l → directory l = l ++ [bucketSeparator] := fun l hl =>
    if_pos fun hlast => hl (mem_of_getLast? hlast)
  have hstring : scriptPublicKeyString s ≠ scriptPublicKeyString s' := fun heq =>
    hne (scriptPublicKeyString_injective hversion hversion' heq)
  unfold Collides
  rw [hdirectory _ h, hdirectory _ h']
  -- The first separator on either side ends the bytes of the script.
  rintro (⟨t, ht⟩ | ⟨rest, -, hrest, -⟩)
  · rw [append_assoc] at ht
    exact hstring (append_separator_inj h h' ht)
  rw [append_assoc] at hrest
  exact hstring (append_separator_inj h h' hrest)

end

/-! ## The store -/

abbrev UTXOOutpointEntryPairs := GoMap DomainOutpoint UTXOEntry

abbrev StagedPairs := GoMap (List UInt8) UTXOOutpointEntryPairs

structure UTXOIndexStore where
  utxos : GoMap (List UInt8) UTXOEntry
  circulatingSupply : Option ℕ
  toAdd : StagedPairs
  toRemove : StagedPairs

inductive IndexError
  /-- `cannot add outpoint %s because it's being added already` -/
  | beingAdded (outpoint : DomainOutpoint)
  /-- `cannot remove outpoint %s because it's being removed already` -/
  | beingRemoved (outpoint : DomainOutpoint)
  /-- `cannot get … while staging isn't empty` -/
  | staged
  | supplyNotFound
  | malformedOutpoint (suffix : List UInt8)
  /-- `Seek` of a cursor that does not find its key. -/
  | outpointNotFound (outpoint : DomainOutpoint)
  | running
  deriving DecidableEq

/-- How the `range` loops of one call visit their maps. -/
structure Orders where
  scripts : List UInt8 → ℕ
  outpoints : DomainOutpoint → ℕ

/-! ## Staging -/

/-- A pair that is staged in `cancel` is taken from there, and another one goes to `into`. -/
def stagePair (cancel into : StagedPairs) (key : List UInt8) (outpoint : DomainOutpoint) (entry : UTXOEntry)
    (alreadyStaged : IndexError) : Except IndexError (StagedPairs × StagedPairs) :=
  let cancelPairs := (cancel.lookup key).getD ∅
  if (cancelPairs.lookup outpoint).isSome then pure (cancel.insert key (cancelPairs.erase outpoint), into)
  else
    let intoPairs := (into.lookup key).getD ∅
    if (intoPairs.lookup outpoint).isSome then throw alreadyStaged
    else pure (cancel, into.insert key (intoPairs.insert outpoint entry))

def UTXOIndexStore.add (uis : UTXOIndexStore) (scriptPublicKey : ScriptPublicKey) (outpoint : DomainOutpoint)
    (utxoEntry : UTXOEntry) : Except IndexError UTXOIndexStore := do
  let (toRemove, toAdd) ← stagePair uis.toRemove uis.toAdd (scriptPublicKeyString scriptPublicKey) outpoint
    utxoEntry (.beingAdded outpoint)
  pure { uis with toAdd := toAdd, toRemove := toRemove }

def UTXOIndexStore.remove (uis : UTXOIndexStore) (scriptPublicKey : ScriptPublicKey) (outpoint : DomainOutpoint)
    (utxoEntry : UTXOEntry) : Except IndexError UTXOIndexStore := do
  let (toAdd, toRemove) ← stagePair uis.toAdd uis.toRemove (scriptPublicKeyString scriptPublicKey) outpoint
    utxoEntry (.beingRemoved outpoint)
  pure { uis with toAdd := toAdd, toRemove := toRemove }

/-! ## The commit -/

section
variable [OutpointCodec]

def stagedRecords (orders : Orders) (staged : StagedPairs) : List (List UInt8 × DomainOutpoint × UTXOEntry) :=
  (staged.pairsBy orders.scripts).flatMap fun pairs =>
    (pairs.2.pairsBy orders.outpoints).map fun pair =>
      (convertOutpointToKey (bucketForScriptPublicKey (newScriptPublicKeyFromString pairs.1)) pair.1, pair.1, pair.2)

def sompiSupply (entries : List UTXOEntry) : ℕ := entries.foldl (fun supply e => (supply + e.amount) % 2 ^ 64) 0

def updateCirculatingSompiSupply (circulatingSupply : Option ℕ) (toAddSompiSupply toRemoveSompiSupply : ℕ) :
    Except IndexError (Option ℕ) :=
  if toAddSompiSupply ≠ toRemoveSompiSupply then
    match circulatingSupply with
    | none => throw .supplyNotFound
    | some supply => pure (some ((supply + toAddSompiSupply + (2 ^ 64 - toRemoveSompiSupply)) % 2 ^ 64))
  else pure circulatingSupply

def UTXOIndexStore.commit (uis : UTXOIndexStore) (orders : Orders) : Except IndexError UTXOIndexStore := do
  let removed := stagedRecords orders uis.toRemove
  let added := stagedRecords orders uis.toAdd
  let utxos := removed.foldl (fun utxos record => utxos.erase record.1) uis.utxos
  let utxos := added.foldl (fun utxos record => utxos.insert record.1 record.2.2) utxos
  let circulatingSupply ← updateCirculatingSompiSupply uis.circulatingSupply
    (sompiSupply (added.map fun record => record.2.2)) (sompiSupply (removed.map fun record => record.2.2))
  pure ⟨utxos, circulatingSupply, ∅, ∅⟩

/-! ## The index -/

def removeUTXOs (orders : Orders) (toRemove : UTXOCollection) (uis : UTXOIndexStore) :
    Except IndexError UTXOIndexStore :=
  (toRemove.pairsBy orders.outpoints).foldlM (fun uis pair => uis.remove pair.2.scriptPublicKey pair.1 pair.2) uis

def addUTXOs (orders : Orders) (toAdd : UTXOCollection) (uis : UTXOIndexStore) :
    Except IndexError UTXOIndexStore :=
  (toAdd.pairsBy orders.outpoints).foldlM (fun uis pair => uis.add pair.2.scriptPublicKey pair.1 pair.2) uis

def update (orders : Orders) (virtualUTXODiff : MutableUTXODiff) (uis : UTXOIndexStore) :
    Except IndexError UTXOIndexStore := do
  let uis ← removeUTXOs orders virtualUTXODiff.toRemove uis
  let uis ← addUTXOs orders virtualUTXODiff.toAdd uis
  uis.commit orders

def UTXOIndexStore.addAndCommitOutpointsWithoutTransaction (uis : UTXOIndexStore)
    (utxoPairs : List (DomainOutpoint × UTXOEntry)) : Except IndexError UTXOIndexStore := do
  let utxos := utxoPairs.foldl
    (fun utxos pair => utxos.insert (keyOf pair.2.scriptPublicKey pair.1) pair.2) uis.utxos
  let circulatingSupply ← updateCirculatingSompiSupply uis.circulatingSupply
    (sompiSupply (utxoPairs.map Prod.snd)) 0
  pure { uis with utxos := utxos, circulatingSupply := circulatingSupply }

def getVirtualUTXOs (pairs : List (DomainOutpoint × UTXOEntry)) (fromOutpoint : Option DomainOutpoint)
    (limit : ℕ) : Except IndexError (List (DomainOutpoint × UTXOEntry)) :=
  match fromOutpoint with
  | none => pure (pairs.take limit)
  | some outpoint =>
    match pairs.dropWhile fun pair => pair.1 ≠ outpoint with
    | [] => throw (.outpointNotFound outpoint)
    | _ :: rest => pure (rest.take limit)

def resetStep : ℕ := 1000

def resetLoop (pairs : List (DomainOutpoint × UTXOEntry)) :
    ℕ → Option DomainOutpoint → UTXOIndexStore → Except IndexError UTXOIndexStore
  | 0, _, _ => throw .running
  | rounds + 1, fromOutpoint, uis => do
    let virtualUTXOs ← getVirtualUTXOs pairs fromOutpoint resetStep
    let uis ← uis.addAndCommitOutpointsWithoutTransaction virtualUTXOs
    if virtualUTXOs.length < resetStep then pure uis
    else resetLoop pairs rounds (virtualUTXOs.getLast?.map Prod.fst) uis

def reset (rounds : ℕ) (pairs : List (DomainOutpoint × UTXOEntry)) (uis : UTXOIndexStore) :
    Except IndexError UTXOIndexStore :=
  resetLoop pairs rounds none { uis with utxos := ∅, circulatingSupply := some 0 }

def UTXOIndexStore.isAnythingStaged (uis : UTXOIndexStore) : Bool :=
  decide (GoMap.size uis.toAdd > 0) || decide (GoMap.size uis.toRemove > 0)

def getCirculatingSompiSupply (uis : UTXOIndexStore) : Except IndexError ℕ :=
  if uis.isAnythingStaged then throw .staged
  else
    match uis.circulatingSupply with
    | some supply => pure supply
    | none => throw .supplyNotFound

/-- The records under the bucket in the order of their keys. -/
def cursorRecords (utxos : GoMap (List UInt8) UTXOEntry) (bucket : Bucket) : List (List UInt8 × UTXOEntry) :=
  ((utxos.entries.filter fun record => decide (bucket.Covers record.1)).insertionSort fun a b => a.1 ≤ b.1).map
    fun record => (record.1.drop bucket.path.length, record.2)

def utxosOf (uis : UTXOIndexStore)
    (scriptPublicKey : ScriptPublicKey) : Except IndexError UTXOOutpointEntryPairs :=
  if uis.isAnythingStaged then throw .staged
  else
    (cursorRecords uis.utxos (bucketForScriptPublicKey scriptPublicKey)).foldlM (fun pairs record =>
      match deserializeOutpoint record.1 with
      | some outpoint => pure (pairs.insert outpoint record.2)
      | none => throw (.malformedOutpoint record.1)) ∅

end

end Kaspad.UTXOIndex
