import Kaspad.Lib.Crash
import Kaspad.Lib.Patch
import Kaspad.UTXO.DiffAlgebra

/-! # What a UTXO diff means

A UTXO set is a partial map from outpoints to entries. A diff is applied by removing `toRemove` and
then adding `toAdd`. At one outpoint a diff is a patch of an optional cell, and a diff that is valid
and canonical on `S` is, outpoint by outpoint, the difference between `S` and what it makes of `S`
(`isDiff_iff`).
-/

namespace Kaspad
open Lib UTXOCollection Patch AList

abbrev UTXOSet := DomainOutpoint → Option UTXOEntry

namespace MutableUTXODiff

/-- The set after the diff: what is in both parts of it is added. -/
def applyTo (d : MutableUTXODiff) (S : UTXOSet) : UTXOSet := fun o =>
  match d.toAdd.get o with
  | some e => some e
  | none => if d.toRemove.contains o then none else S o

/-- Every entry of `toRemove` is the entry of `S`, and every outpoint of `toAdd` is absent from `S`
or in `toRemove`. -/
structure ValidOn (d : MutableUTXODiff) (S : UTXOSet) : Prop where
  removed : ∀ o e, d.toRemove.get o = some e → S o = some e
  added : ∀ o, d.toAdd.contains o = true → S o = none ∨ d.toRemove.contains o = true

def Canonical (d : MutableUTXODiff) : Prop :=
  ∀ o e, d.toAdd.get o = some e → d.toRemove.get o ≠ some e

def patchAt (d : MutableUTXODiff) (o : DomainOutpoint) : Patch UTXOEntry :=
  { add := d.toAdd.lookup o, remove := d.toRemove.lookup o }

/-- The canonical diff between the two sets. -/
def IsDiff (d : MutableUTXODiff) (S T : UTXOSet) : Prop := ∀ o, d.patchAt o = Patch.diff (S o) (T o)

variable (d : MutableUTXODiff) (S : UTXOSet)

theorem applyTo_at (o : DomainOutpoint) : d.applyTo S o = (d.patchAt o).apply (S o) := by
  unfold applyTo Patch.apply patchAt UTXOCollection.get contains
  cases d.toAdd.lookup o <;> rfl

theorem validOn_iff : d.ValidOn S ↔ ∀ o, (d.patchAt o).Valid (S o) := by
  constructor
  · intro h o
    exact ⟨h.removed o, h.added o⟩
  intro h
  exact ⟨fun o => (h o).removed, fun o => (h o).added⟩

theorem isDiff_iff : d.ValidOn S ∧ d.Canonical ↔ d.IsDiff S (d.applyTo S) := by
  constructor
  · rintro ⟨hv, hc⟩ o
    rw [applyTo_at]
    exact eq_diff ((validOn_iff d S).mp hv o) (hc o)
  intro h
  have h' := fun o => (eq_diff_iff (d.patchAt o) (S o)).mpr (applyTo_at d S o ▸ h o)
  exact ⟨(validOn_iff d S).mpr fun o => (h' o).1, fun o => (h' o).2⟩

variable {d : MutableUTXODiff} {S T : UTXOSet}

theorem IsDiff.applyTo_eq (h : d.IsDiff S T) : d.applyTo S = T := by
  funext o
  rw [applyTo_at, h o, apply_diff]

theorem IsDiff.valid_canonical (h : d.IsDiff S T) : d.ValidOn S ∧ d.Canonical := by
  rw [isDiff_iff, h.applyTo_eq]
  exact h

theorem IsDiff.same {d' : MutableUTXODiff} (h : d.IsDiff S T) (h' : d'.IsDiff S T) : d.Same d' := by
  have hp : ∀ o, d.patchAt o = d'.patchAt o := fun o => (h o).trans (h' o).symm
  exact ⟨fun o => congrArg Patch.add (hp o), fun o => congrArg Patch.remove (hp o)⟩

theorem IsDiff.reversed (h : d.IsDiff S T) : d.reversed.IsDiff T S := by
  intro o
  rw [← swap_diff, ← h o]
  rfl

end MutableUTXODiff

theorem isDiff_new (S : UTXOSet) : MutableUTXODiff.new.IsDiff S S := by
  intro o
  cases S o <;> simp [MutableUTXODiff.patchAt, MutableUTXODiff.new, Patch.diff]

/-! ## Entries of one outpoint with one DAA score -/

def Occurs (S : UTXOSet) (ds : List MutableUTXODiff) (o : DomainOutpoint) (e : UTXOEntry) : Prop :=
  S o = some e ∨ ∃ d ∈ ds, d.toAdd.get o = some e ∨ d.toRemove.get o = some e

/-- The collections compare entries by DAA score only; here that is enough. -/
def DAAScoreDetermines (known : DomainOutpoint → UTXOEntry → Prop) : Prop :=
  ∀ o e e', known o e → known o e' → e.blockDAAScore = e'.blockDAAScore → e = e'

def UTXOSet.Within (S : UTXOSet) (known : DomainOutpoint → UTXOEntry → Prop) : Prop :=
  ∀ o e, S o = some e → known o e

variable {known : DomainOutpoint → UTXOEntry → Prop}

theorem MutableUTXODiff.within_applyTo {S : UTXOSet} {d : MutableUTXODiff} (hS : S.Within known)
    (hd : ∀ o e, d.toAdd.get o = some e → known o e) : UTXOSet.Within (d.applyTo S) known := by
  intro o e h
  unfold applyTo at h
  split at h
  · next f hf =>
      obtain rfl : f = e := by simpa using h
      exact hd o f hf
  split at h
  · cases h
  · exact hS o e h

theorem containsWithDAAScore_eq (hk : DAAScoreDetermines known) {uc : UTXOCollection}
    {o : DomainOutpoint} {e : UTXOEntry} (huc : ∀ f, uc.lookup o = some f → known o f) (he : known o e) :
    uc.containsWithDAAScore o e.blockDAAScore = decide (uc.lookup o = some e) := by
  unfold containsWithDAAScore
  cases h : uc.lookup o with
  | none => simp
  | some f =>
    by_cases hfe : f = e
    · simp [hfe]
    have hs : f.blockDAAScore ≠ e.blockDAAScore := fun hs => hfe (hk o f e (huc f h) he hs)
    simp [hfe, hs]

/-! ## A diff written to a bucket

The stores of UTXO sets write a diff by deleting the outpoints of `toRemove` one by one and then putting the
entries of `toAdd`. Writing it again, from any state in between, ends in the same set.
-/

namespace MutableUTXODiff
variable (diff : MutableUTXODiff)

def writes : List (UTXOCollection → UTXOCollection) := GoMap.overwrites diff.toRemove.keys diff.toAdd

def writeTo (bucket : UTXOCollection) : UTXOCollection := diff.writes.foldl (fun bucket w => w bucket) bucket

theorem lookup_writeTo (bucket : UTXOCollection) :
    (fun o => (diff.writeTo bucket).lookup o) = diff.applyTo fun o => bucket.lookup o := by
  funext o
  unfold writeTo writes applyTo UTXOCollection.get UTXOCollection.contains
  rw [GoMap.lookup_overwrites]
  cases diff.toAdd.lookup o with
  | some e => rfl
  | none =>
    by_cases ho : o ∈ diff.toRemove.keys
    · have hsome := lookup_isSome.mpr ho
      simp [ho, hsome]
    have hnone := lookup_eq_none.mpr ho
    simp [ho, hnone]

def Writes (o : DomainOutpoint) : Prop := diff.toAdd.contains o = true ∨ diff.toRemove.contains o = true

variable {o : DomainOutpoint}

theorem writes_elsewhere {w : UTXOCollection → UTXOCollection} (hw : w ∈ diff.writes)
    (ho : ¬ diff.Writes o) (bucket : UTXOCollection) : (w bucket).lookup o = bucket.lookup o := by
  obtain ⟨hadd, hremove⟩ := not_or.mp ho
  refine GoMap.overwrites_elsewhere hw (fun hmem => hremove (lookup_isSome.mpr hmem)) ?_ bucket
  simpa [UTXOCollection.contains] using hadd

theorem applyTo_congr {S S' : UTXOSet} (h : ∀ o, ¬ diff.Writes o → S' o = S o) :
    diff.applyTo S' = diff.applyTo S := by
  funext o
  unfold applyTo
  cases hadd : diff.toAdd.get o with
  | some e => rfl
  | none =>
    by_cases hremove : diff.toRemove.contains o = true
    · simp [hremove]
    have hnot : ¬ diff.Writes o := by
      rintro (h | h)
      · simp [UTXOCollection.contains, show diff.toAdd.lookup o = none from hadd] at h
      · exact hremove h
    simp [hremove, h o hnot]

theorem applyTo_elsewhere {S : UTXOSet} (h : ¬ diff.Writes o) : diff.applyTo S o = S o := by
  obtain ⟨hadd, hremove⟩ := not_or.mp h
  have hnone : diff.toAdd.get o = none := by simpa [UTXOCollection.contains, UTXOCollection.get] using hadd
  simp [applyTo, hnone, hremove]

theorem applyTo_applyTo (S : UTXOSet) : diff.applyTo (diff.applyTo S) = diff.applyTo S :=
  diff.applyTo_congr fun _ ho => diff.applyTo_elsewhere ho

end MutableUTXODiff
end Kaspad
