import Kaspad.Traversal.Window

/-! # The past median time and its cache

`domain/consensus/processes/pastmediantimemanager`: the past median time of a block is the median of the
timestamps of its block window. That of the virtual block is kept in a cache, which a successful
`validateAndInsertBlock` empties at its end, after it has asked about the virtual block that it staged.
`ResolveVirtual` moves the virtual block too and does not empty it, and neither does an insertion that fails.
-/

namespace Kaspad.PastMedianTime
open Lib Ghostdag Traversal List

/-- `BlockWindow` and the timestamp of `BlockHeader`, on a view of the database through a staging area. -/
structure Manager (V : Type) where
  timestampDeviationTolerance : ℕ
  genesisHash : DomainHash
  blockWindow : V → DomainHash → ℕ → Except String (List DomainHash)
  timeInMilliseconds : V → DomainHash → Except String ℤ

variable {V : Type} (pmtm : Manager V)

def windowMedianTimestamp (view : V) (window : List DomainHash) : Except String ℤ := do
  if window.length = 0 then throw "Cannot calculate median timestamp for an empty block window"
  let timestamps ← window.mapM (pmtm.timeInMilliseconds view)
  pure ((timestamps.insertionSort (· ≤ ·)).getD (timestamps.length / 2) 0)

def pastMedianTime (view : V) (virtualPastMedianTimeCache : ℤ) (blockHash : DomainHash) : Except String ℤ × ℤ :=
  if blockHash = virtualBlockHash ∧ virtualPastMedianTimeCache ≠ 0 then
    (.ok virtualPastMedianTimeCache, virtualPastMedianTimeCache)
  else
    match pmtm.blockWindow view blockHash (2 * pmtm.timestampDeviationTolerance - 1) with
    | .error e => (.error e, virtualPastMedianTimeCache)
    | .ok window =>
      if window.length = 0 then
        (pmtm.timeInMilliseconds view pmtm.genesisHash, virtualPastMedianTimeCache)
      else
        match windowMedianTimestamp pmtm view window with
        | .error e => (.error e, virtualPastMedianTimeCache)
        | .ok pastMedianTime =>
          (.ok pastMedianTime, if blockHash = virtualBlockHash then pastMedianTime else virtualPastMedianTimeCache)

def virtualMedianTime (view : V) : Except String ℤ := (pastMedianTime pmtm view 0 virtualBlockHash).1

/-! ## Runs -/

structure State (V : Type) where
  committed : V
  /-- The view through the staging area of the present call. -/
  staged : V
  virtualPastMedianTimeCache : ℤ

inductive Step (V : Type)
  | newStagingArea
  | stage (view : V)
  | pastMedianTime (blockHash : DomainHash)
  | commit
  | invalidateVirtualPastMedianTimeCache

def Step.call : Step V → State V → State V
  | .newStagingArea, s => { s with staged := s.committed }
  | .stage view, s => { s with staged := view }
  | .pastMedianTime blockHash, s =>
    { s with virtualPastMedianTimeCache :=
        (PastMedianTime.pastMedianTime pmtm s.staged s.virtualPastMedianTimeCache blockHash).2 }
  | .commit, s => { s with committed := s.staged }
  | .invalidateVirtualPastMedianTimeCache, s => { s with virtualPastMedianTimeCache := 0 }

/-- What `PastMedianTime` answers about the virtual block, with the view on which it is asked. -/
def Step.answer : Step V → State V → List (V × Except String ℤ)
  | .pastMedianTime blockHash, s =>
    if blockHash = virtualBlockHash then
      [(s.staged, (PastMedianTime.pastMedianTime pmtm s.staged s.virtualPastMedianTimeCache blockHash).1)]
    else []
  | _, _ => []

/-- All answers about the virtual block, also those to calls from inside insertions and `ResolveVirtual`. -/
def answers : List (Step V) → State V → List (V × Except String ℤ)
  | [], _ => []
  | step :: steps, s => step.answer pmtm s ++ answers steps (step.call pmtm s)

/-- How a call ends: with an error before its staging area is committed, with an error after that,
or well. -/
inductive Ending
  | fails
  | failsAfterCommit
  | succeeds
  deriving DecidableEq, Repr

/-- `validateAndInsertBlock` and `ResolveVirtual` by what they stage, ask and commit on the way, and `PastMedianTime`
from outside. -/
inductive Op (V : Type)
  | validateAndInsertBlock (actions : List (Step V)) (ending : Ending)
  | resolveVirtual (actions : List (Step V)) (ending : Ending)
  | pastMedianTime

def Ending.commits : Ending → List (Step V)
  | .fails => []
  | _ => [.commit]

def Op.steps : Op V → List (Step V)
  | .validateAndInsertBlock actions ending =>
    -- The last thing that `validateAndInsertBlock` does.
    .newStagingArea :: actions ++ ending.commits ++
      if ending = .succeeds then [.invalidateVirtualPastMedianTimeCache] else []
  | .resolveVirtual actions ending => .newStagingArea :: actions ++ ending.commits
  | .pastMedianTime => [.newStagingArea, .pastMedianTime virtualBlockHash]

/-- The answers in a run of a node that starts with an empty cache. -/
def runAnswers (run : List (Op V)) (committed : V) : List (V × Except String ℤ) :=
  answers pmtm (run.flatMap Op.steps) ⟨committed, committed, 0⟩

/-! ## When the cache is right -/

/-- A call on this view leaves something in an empty cache. -/
def Fills (view : V) : Prop := (pastMedianTime pmtm view 0 virtualBlockHash).2 ≠ 0

/-- `seen` are the views on which the virtual block was asked about since the cache was last emptied. Whenever it is
asked about again, its past median time is the one of those that filled the cache. -/
def Steady : List (Step V) → (committed staged : V) → (seen : List V) → Prop
  | [], _, _, _ => True
  | .newStagingArea :: steps, committed, _, seen => Steady steps committed committed seen
  | .stage view :: steps, committed, _, seen => Steady steps committed view seen
  | .commit :: steps, _, staged, seen => Steady steps staged staged seen
  | .invalidateVirtualPastMedianTimeCache :: steps, committed, staged, _ => Steady steps committed staged []
  | .pastMedianTime blockHash :: steps, committed, staged, seen =>
    if blockHash = virtualBlockHash then
      (∀ view ∈ seen, Fills pmtm view → virtualMedianTime pmtm staged = virtualMedianTime pmtm view) ∧
        Steady steps committed staged (staged :: seen)
    else Steady steps committed staged seen

/-- The run from an empty cache. -/
def SteadyRun (run : List (Op V)) (committed : V) : Prop :=
  Steady pmtm (run.flatMap Op.steps) committed committed []

/-- The cache is empty and was not filled, or has the past median time of the views that filled it. -/
structure Filled (seen : List V) (cache : ℤ) : Prop where
  right : ∀ view ∈ seen, Fills pmtm view → cache ≠ 0 ∧ virtualMedianTime pmtm view = .ok cache
  source : cache ≠ 0 → ∃ view ∈ seen, Fills pmtm view

section
variable {pmtm} {view : V} {cache : ℤ} {seen : List V}

theorem pastMedianTime_cached (h : cache ≠ 0) :
    pastMedianTime pmtm view cache virtualBlockHash = (.ok cache, cache) := by
  unfold pastMedianTime
  rw [if_pos ⟨rfl, h⟩]

theorem pastMedianTime_other {blockHash : DomainHash} (h : blockHash ≠ virtualBlockHash) :
    (pastMedianTime pmtm view cache blockHash).2 = cache := by
  unfold pastMedianTime
  simp only [h, false_and, if_false]
  split
  · rfl
  split
  · rfl
  · split <;> rfl

theorem Fills.eq_ok (h : Fills pmtm view) :
    virtualMedianTime pmtm view = .ok (pastMedianTime pmtm view 0 virtualBlockHash).2 := by
  unfold Fills at h
  unfold virtualMedianTime
  revert h
  unfold pastMedianTime
  simp only [ne_eq, not_true_eq_false, and_false, if_false]
  split
  · exact fun h => absurd rfl h
  split
  · exact fun h => absurd rfl h
  split
  · exact fun h => absurd rfl h
  · exact fun _ => rfl

theorem filled_nil : Filled pmtm [] 0 := ⟨by simp, fun h => absurd rfl h⟩

theorem Filled.answer_iff (h : Filled pmtm seen cache) :
    (pastMedianTime pmtm view cache virtualBlockHash).1 = virtualMedianTime pmtm view ↔
      ∀ v ∈ seen, Fills pmtm v → virtualMedianTime pmtm view = virtualMedianTime pmtm v := by
  by_cases hcache : cache = 0
  · refine iff_of_true (by rw [hcache]; rfl) fun v hv hfills => absurd hcache (h.right v hv hfills).1
  rw [pastMedianTime_cached hcache]
  constructor
  · intro hanswer v hv hfills
    exact hanswer.symm.trans (h.right v hv hfills).2.symm
  · intro hall
    obtain ⟨v, hv, hfills⟩ := h.source hcache
    exact ((hall v hv hfills).trans (h.right v hv hfills).2).symm

/-- A right answer leaves the cache filled by what has been seen. -/
theorem Filled.next (h : Filled pmtm seen cache)
    (hright : (pastMedianTime pmtm view cache virtualBlockHash).1 = virtualMedianTime pmtm view) :
    Filled pmtm (view :: seen) (pastMedianTime pmtm view cache virtualBlockHash).2 := by
  by_cases hcache : cache = 0
  · subst hcache
    have hnone : ∀ v ∈ seen, ¬ Fills pmtm v := fun v hv hfills => (h.right v hv hfills).1 rfl
    refine ⟨forall_mem_cons.mpr ⟨fun hfills => ⟨hfills, hfills.eq_ok⟩, fun v hv hfills => absurd hfills (hnone v hv)⟩,
      fun hfills => ⟨view, mem_cons_self, hfills⟩⟩
  rw [pastMedianTime_cached hcache] at hright ⊢
  obtain ⟨v, hv, hfills⟩ := h.source hcache
  exact ⟨forall_mem_cons.mpr ⟨fun _ => ⟨hcache, hright.symm⟩, h.right⟩, fun _ => ⟨v, mem_cons_of_mem _ hv, hfills⟩⟩

/-- The invariant is `Filled`; it ends with the first wrong answer, and so does `Steady`. -/
theorem answers_right_iff (steps : List (Step V)) {s : State V} (h : Filled pmtm seen s.virtualPastMedianTimeCache) :
    (∀ a ∈ answers pmtm steps s, a.2 = virtualMedianTime pmtm a.1) ↔
      Steady pmtm steps s.committed s.staged seen := by
  induction steps generalizing s seen with
  | nil => simp [answers, Steady]
  | cons step steps ih =>
    cases step with
    | newStagingArea => exact ih (s := { s with staged := s.committed }) h
    | stage view => exact ih (s := { s with staged := view }) h
    | commit => exact ih (s := { s with committed := s.staged }) h
    | invalidateVirtualPastMedianTimeCache => exact ih (s := { s with virtualPastMedianTimeCache := 0 }) filled_nil
    | pastMedianTime blockHash =>
      by_cases hvirtual : blockHash = virtualBlockHash
      · subst hvirtual
        simp only [answers, Step.answer, Steady, if_true, singleton_append, forall_mem_cons, h.answer_iff]
        refine and_congr_right fun hall => ?_
        have hnext := h.next (h.answer_iff.mpr hall)
        exact ih (s := Step.call pmtm (.pastMedianTime virtualBlockHash) s) hnext
      · simp only [answers, Step.answer, Steady, if_neg hvirtual, nil_append]
        refine ih (s := Step.call pmtm (.pastMedianTime blockHash) s) ?_
        simp only [Step.call, pastMedianTime_other hvirtual]
        exact h

end

/-- Every answer about the virtual block is its past median time, exactly if between two times the cache is emptied
the virtual block is asked about only where it has the past median time that filled the cache. -/
theorem runAnswers_right_iff (run : List (Op V)) (committed : V) :
    (∀ a ∈ runAnswers pmtm run committed, a.2 = virtualMedianTime pmtm a.1) ↔ SteadyRun pmtm run committed :=
  answers_right_iff (run.flatMap Op.steps) filled_nil

/-! ## A stale cache -/

def sampleView (blocks : List Block) (virtualParents : List DomainHash) : View :=
  let dag := blocks ++ [⟨virtualBlockHash, virtualParents, 0x1d00ffff⟩]
  ⟨dag, (addBlocks ⟨2, 1, ancestorIn dag dag.length⟩ dag.length dag Stores.empty).toOption.getD Stores.empty⟩

def sampleManager : Manager View where
  timestampDeviationTolerance := 1
  genesisHash := 1
  blockWindow view blockHash windowSize :=
    match Traversal.blockWindow ⟨1, fun _ => []⟩ view.st (view.dag.length + 1) ⟨∅, ∅, 0⟩ blockHash windowSize with
    | .ok (window, _) => .ok window
    | .error _ => .error "window"
  timeInMilliseconds view blockHash :=
    if blockHash ∈ hashes view.dag ∧ blockHash ≠ virtualBlockHash then .ok (1000 * blockHash)
    else .error "header not found"

def headersFirst : Op View :=
  .validateAndInsertBlock [.stage (sampleView diamond [2, 3])] .succeeds

def resolve : Op View :=
  .resolveVirtual [.stage (sampleView diamond [4]), .pastMedianTime virtualBlockHash] .succeeds

/-- `updateVirtual` asks about the virtual block that it has staged. -/
def insertFour : Op View :=
  .validateAndInsertBlock [.stage (sampleView diamond [4]), .pastMedianTime virtualBlockHash] .succeeds

/-- After a call from outside, an insertion that moves the virtual block onto 4 gets its old past median time; and so
does every call after `ResolveVirtual` has moved it. -/
theorem pastMedianTime_stale_after_resolveVirtual :
    (runAnswers sampleManager [.pastMedianTime, insertFour] (sampleView (diamond.take 3) [2, 3])).map
        (fun a => (a.2.toOption, (virtualMedianTime sampleManager a.1).toOption)) =
      [(some 3000, some 3000), (some 3000, some 4000)] ∧
    (runAnswers sampleManager [headersFirst, .pastMedianTime, resolve, .pastMedianTime]
        (sampleView (diamond.take 3) [2, 3])).map
        (fun a => (a.2.toOption, (virtualMedianTime sampleManager a.1).toOption)) =
      [(some 3000, some 3000), (some 3000, some 4000), (some 3000, some 4000)] := by
  decide +kernel

/-- Without the call from outside the answers are right. -/
example : (runAnswers sampleManager [insertFour, .pastMedianTime] (sampleView (diamond.take 3) [2, 3])).map
    (fun a => (a.2.toOption, (virtualMedianTime sampleManager a.1).toOption)) =
      [(some 4000, some 4000), (some 4000, some 4000)] := by
  decide +kernel

end Kaspad.PastMedianTime
