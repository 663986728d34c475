import Kaspad.Lib.Cache
import Kaspad.UTXO.DiffSpec

/-! # The virtual UTXO set

`utxo.go` of `domain/consensus/datastructures/consensusstatestore`: the UTXO set of the virtual block
in the database, the cache in front of it, and the diff that a staging area puts on top of it. A
read through the staging area looks into the diff, while the commit writes the diff to the database.
-/

namespace Kaspad.ConsensusState
open Lib UTXOCollection GoMap

abbrev StagedDiff := Option MutableUTXODiff

inductive StoreError
  /-- "outpoint was not found" -/
  | outpointWasNotFound
  /-- `database.ErrNotFound` -/
  | notFound
  deriving DecidableEq, Repr

/-- The bucket of the virtual UTXO set and the cache in front of it. -/
structure VirtualUTXOSet where
  cache : Cache DomainOutpoint UTXOEntry
  db : UTXOCollection

variable (victim : UTXOCollection → DomainOutpoint)

def VirtualUTXOSet.delete (s : VirtualUTXOSet) (outpoint : DomainOutpoint) : VirtualUTXOSet :=
  { cache := s.cache.remove outpoint, db := s.db.erase outpoint }

def VirtualUTXOSet.put (s : VirtualUTXOSet) (outpoint : DomainOutpoint) (entry : UTXOEntry) :
    VirtualUTXOSet :=
  { cache := s.cache.add victim outpoint entry, db := s.db.insert outpoint entry }

def commitVirtualUTXODiff (staging : StagedDiff) (s : VirtualUTXOSet) : VirtualUTXOSet :=
  match staging with
  | none => s
  | some diff =>
    let s := diff.toRemove.entries.foldl (fun s e => s.delete e.1) s
    diff.toAdd.entries.foldl (fun s e => s.put victim e.1 e.2) s

/-- The part of `utxoByOutpointFromStagedVirtualUTXODiff` after the staged diff. -/
def readUTXO (s : VirtualUTXOSet) (outpoint : DomainOutpoint) : Except StoreError UTXOEntry × VirtualUTXOSet :=
  match s.cache.get outpoint with
  | some entry => (.ok entry, s)
  | none =>
    match s.db.lookup outpoint with
    | none => (.error .notFound, s)
    | some entry => (.ok entry, { s with cache := s.cache.add victim outpoint entry })

def utxoByOutpoint (staging : StagedDiff) (s : VirtualUTXOSet) (outpoint : DomainOutpoint) :
    Except StoreError UTXOEntry × VirtualUTXOSet :=
  match staging with
  | none => readUTXO victim s outpoint
  | some diff =>
    if diff.toRemove.contains outpoint then (.error .outpointWasNotFound, s)
    else
      match diff.toAdd.get outpoint with
      | some utxoEntry => (.ok utxoEntry, s)
      | none => readUTXO victim s outpoint

def hasUTXOByOutpoint (staging : StagedDiff) (s : VirtualUTXOSet) (outpoint : DomainOutpoint) : Bool :=
  match staging with
  | none => s.db.contains outpoint
  | some diff =>
    if diff.toRemove.contains outpoint then false
    else
      match diff.toAdd.get outpoint with
      | some _ => true
      | none => s.db.contains outpoint

/-! ## What the commit writes -/

def VirtualUTXOSet.utxos (s : VirtualUTXOSet) : UTXOSet := fun o => s.db.lookup o

/-- What is cached is what is stored. -/
def VirtualUTXOSet.Coherent (s : VirtualUTXOSet) : Prop := s.cache.Within s.utxos

variable {s : VirtualUTXOSet} {outpoint : DomainOutpoint} {entry : UTXOEntry}

theorem VirtualUTXOSet.Coherent.delete (h : s.Coherent) : (s.delete outpoint).Coherent :=
  Cache.Within.remove h fun o ho => by simp [VirtualUTXOSet.delete, VirtualUTXOSet.utxos, ho]

theorem VirtualUTXOSet.Coherent.put (h : s.Coherent) : (s.put victim outpoint entry).Coherent :=
  Cache.Within.add h (by simp [VirtualUTXOSet.put, VirtualUTXOSet.utxos]) fun o ho => by
    simp [VirtualUTXOSet.put, VirtualUTXOSet.utxos, ho]

variable (l : List ((_ : DomainOutpoint) × UTXOEntry))

theorem foldl_delete (h : s.Coherent) : (l.foldl (fun s e => s.delete e.1) s).Coherent ∧
      (l.foldl (fun s e => s.delete e.1) s).db = l.foldl (fun db e => db.erase e.1) s.db := by
  induction l generalizing s with
  | nil => exact ⟨h, rfl⟩
  | cons e l ih => exact ih h.delete

theorem foldl_put (h : s.Coherent) :
    (l.foldl (fun s e => s.put victim e.1 e.2) s).Coherent ∧ (l.foldl (fun s e => s.put victim e.1 e.2) s).db =
        l.foldl (fun db e => db.insert e.1 (id e.2)) s.db := by
  induction l generalizing s with
  | nil => exact ⟨h, rfl⟩
  | cons e l ih => exact ih (h.put victim)

theorem commitVirtualUTXODiff_spec (diff : MutableUTXODiff) (h : s.Coherent) :
    (commitVirtualUTXODiff victim (some diff) s).Coherent ∧
      (commitVirtualUTXODiff victim (some diff) s).utxos = diff.applyTo s.utxos := by
  obtain ⟨hdeleted, hdb⟩ := foldl_delete diff.toRemove.entries h
  obtain ⟨hput, hdb'⟩ := foldl_put victim diff.toAdd.entries hdeleted
  refine ⟨hput, funext fun o => ?_⟩
  have hremoved := lookup_eraseKeys diff.toRemove s.db o
  have hadded := lookup_addMapped id diff.toAdd (GoMap.eraseKeys diff.toRemove s.db) o
  unfold commitVirtualUTXODiff VirtualUTXOSet.utxos
  rw [hdb', hdb]
  unfold GoMap.addMapped GoMap.eraseKeys at hadded
  unfold GoMap.eraseKeys at hremoved
  rw [hadded, hremoved]
  unfold MutableUTXODiff.applyTo UTXOCollection.get contains
  cases diff.toAdd.lookup o <;> simp

/-! ## Reading through the staging area -/

theorem readUTXO_eq (h : s.Coherent) (o : DomainOutpoint) : (readUTXO victim s o).1 = match s.utxos o with
      | some e => .ok e
      | none => .error .notFound := by
  unfold readUTXO
  cases hc : s.cache.get o with
  | none => unfold VirtualUTXOSet.utxos; cases s.db.lookup o <;> rfl
  | some e => rw [h o e hc]

theorem readUTXO_spec (h : s.Coherent) (o : DomainOutpoint) :
    (readUTXO victim s o).2.Coherent ∧ (readUTXO victim s o).2.utxos = s.utxos := by
  unfold readUTXO
  cases s.cache.get o with
  | some e => exact ⟨h, rfl⟩
  | none =>
    cases hdb : s.db.lookup o with
    | none => exact ⟨h, rfl⟩
    | some e => exact ⟨Cache.Within.add h hdb fun _ _ => rfl, rfl⟩

def found (answer : Except StoreError UTXOEntry × VirtualUTXOSet) : Option UTXOEntry :=
  answer.1.toOption

/-- Answers with the diff staged are those after its commit exactly when the outpoint is not in both collections. -/
theorem staged_eq_committed_iff (s : VirtualUTXOSet) (h : s.Coherent) (diff : MutableUTXODiff) (o : DomainOutpoint) :
    ((found (utxoByOutpoint victim (some diff) s o) =
          found (utxoByOutpoint victim none (commitVirtualUTXODiff victim (some diff) s) o) ∧
        hasUTXOByOutpoint (some diff) s o = hasUTXOByOutpoint none (commitVirtualUTXODiff victim (some diff) s) o) ↔
      ¬ (diff.toRemove.contains o = true ∧ diff.toAdd.contains o = true)) ∧
    ((utxoByOutpoint victim (some diff) s o).1 =
        (utxoByOutpoint victim none (commitVirtualUTXODiff victim (some diff) s) o).1 ↔
      diff.toRemove.contains o = false) := by
  obtain ⟨hcoherent, hdb⟩ := commitVirtualUTXODiff_spec victim diff h
  have hafter := readUTXO_eq victim hcoherent o
  have hbefore := readUTXO_eq victim h o
  rw [hdb] at hafter
  have hhas : hasUTXOByOutpoint none (commitVirtualUTXODiff victim (some diff) s) o =
      (diff.applyTo s.utxos o).isSome := by
    rw [← hdb]
    rfl
  unfold found utxoByOutpoint
  rw [hhas, hafter]
  unfold hasUTXOByOutpoint MutableUTXODiff.applyTo contains UTXOCollection.get
  by_cases hremove : (diff.toRemove.lookup o).isSome = true
  · -- The staged read stops at `toRemove`; the commit writes `toAdd` last.
    cases diff.toAdd.lookup o <;> simp [hremove, Except.toOption]
  cases hadd : diff.toAdd.lookup o with
  | some e => simp [hremove, hadd, Except.toOption]
  | none => simp [hremove, hadd, hbefore, VirtualUTXOSet.utxos]

def reaccepted : MutableUTXODiff :=
  { toAdd := (∅ : UTXOCollection).insert ⟨1, 0⟩ ⟨50, ⟨[], 0⟩, 7, false⟩
    toRemove := (∅ : UTXOCollection).insert ⟨1, 0⟩ ⟨50, ⟨[], 0⟩, 5, false⟩ }

def beforeReorg : VirtualUTXOSet :=
  { cache := ⟨∅, 10⟩, db := (∅ : UTXOCollection).insert ⟨1, 0⟩ ⟨50, ⟨[], 0⟩, 5, false⟩ }

theorem staged_eq_committed_iff_beforeReorg : beforeReorg.Coherent ∧
      (found (utxoByOutpoint (fun _ => ⟨0, 0⟩) (some reaccepted) beforeReorg ⟨2, 0⟩) =
          found (utxoByOutpoint (fun _ => ⟨0, 0⟩) none
            (commitVirtualUTXODiff (fun _ => ⟨0, 0⟩) (some reaccepted) beforeReorg) ⟨2, 0⟩) ∧
        hasUTXOByOutpoint (some reaccepted) beforeReorg ⟨2, 0⟩ = hasUTXOByOutpoint none
            (commitVirtualUTXODiff (fun _ => ⟨0, 0⟩) (some reaccepted) beforeReorg) ⟨2, 0⟩) := by
  have hcoherent : beforeReorg.Coherent := fun o e h => by simp [beforeReorg, Cache.get] at h
  exact ⟨hcoherent, (staged_eq_committed_iff _ beforeReorg hcoherent reaccepted ⟨2, 0⟩).1.mpr (by decide)⟩

/-- With the diff staged the outpoint is not found; after the commit it is there. -/
theorem staged_read_misses_reaccepted : beforeReorg.Coherent ∧ reaccepted.ValidOn beforeReorg.utxos ∧
      found (utxoByOutpoint (fun _ => ⟨0, 0⟩) (some reaccepted) beforeReorg ⟨1, 0⟩) = none ∧
      hasUTXOByOutpoint (some reaccepted) beforeReorg ⟨1, 0⟩ = false ∧ found (utxoByOutpoint (fun _ => ⟨0, 0⟩) none
        (commitVirtualUTXODiff (fun _ => ⟨0, 0⟩) (some reaccepted) beforeReorg) ⟨1, 0⟩) =
          some ⟨50, ⟨[], 0⟩, 7, false⟩ ∧ hasUTXOByOutpoint none
        (commitVirtualUTXODiff (fun _ => ⟨0, 0⟩) (some reaccepted) beforeReorg) ⟨1, 0⟩ = true := by
  refine ⟨fun o e h => by simp [beforeReorg, Cache.get] at h, ⟨fun o e h => h, fun o ho => .inr ?_⟩,
    by decide, by decide, by decide, by decide⟩
  by_cases heq : o = ⟨1, 0⟩
  · subst heq
    decide
  unfold reaccepted contains at ho
  rw [lookup_set, if_neg heq] at ho
  simp at ho

/-! ## Runs of the store -/

/-- The calls that read or change the virtual UTXO set. -/
inductive StoreCall
  | read (staging : StagedDiff) (outpoint : DomainOutpoint)
  | commit (diff : MutableUTXODiff)
  /-- `ImportPruningPointUTXOSetIntoVirtualUTXOSet` -/
  | replace (utxoSet : UTXOCollection)

def StoreCall.run (s : VirtualUTXOSet) : StoreCall → VirtualUTXOSet
  | read staging outpoint => (utxoByOutpoint victim staging s outpoint).2
  | commit diff => commitVirtualUTXODiff victim (some diff) s
  | replace utxoSet => ⟨⟨∅, s.cache.capacity⟩, addMapped id utxoSet (eraseKeys s.db s.db)⟩

def StoreCall.apply (S : UTXOSet) : StoreCall → UTXOSet
  | read _ _ => S
  | commit diff => diff.applyTo S
  | replace utxoSet => fun o => utxoSet.lookup o

theorem StoreCall.run_spec (h : s.Coherent) (call : StoreCall) :
    (call.run victim s).Coherent ∧ (call.run victim s).utxos = call.apply s.utxos := by
  cases call with
  | read staging o =>
    simp only [run, apply, utxoByOutpoint]
    repeat' split
    all_goals first | exact readUTXO_spec victim h o | exact ⟨h, rfl⟩
  | commit diff => exact commitVirtualUTXODiff_spec victim diff h
  | replace utxoSet =>
    refine ⟨fun o e ho => (by cases ho), funext fun o => (lookup_addMapped id utxoSet _ o).trans ?_⟩
    rw [lookup_eraseKeys]
    cases s.db.lookup o <;> simp [apply]

/-- After any run from an empty cache, whatever each call evicts, a read finds what the calls make of the set alone. -/
theorem read_after_run (db : UTXOCollection) (capacity : ℕ)
    (calls : List ((UTXOCollection → DomainOutpoint) × StoreCall)) (o : DomainOutpoint) :
    found (readUTXO victim (calls.foldl (fun s call => call.2.run call.1 s) ⟨⟨∅, capacity⟩, db⟩) o) =
      calls.foldl (fun S call => call.2.apply S) (fun o => db.lookup o) o := by
  obtain ⟨hcoherent, hutxos⟩ := List.foldl_rel (l := calls) (r := fun s S => VirtualUTXOSet.Coherent s ∧ s.utxos = S)
    (a := ⟨⟨∅, capacity⟩, db⟩) ⟨fun o e h => (by cases h), rfl⟩ fun call _ s S h => h.2 ▸ call.2.run_spec call.1 h.1
  refine Eq.trans ?_ (congrFun hutxos o)
  rw [found, readUTXO_eq victim hcoherent]
  cases VirtualUTXOSet.utxos _ o <;> rfl

end Kaspad.ConsensusState
