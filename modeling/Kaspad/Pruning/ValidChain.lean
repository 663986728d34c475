import Kaspad.Lib.Meets
import Kaspad.Lib.ParentChain
import Kaspad.Transaction
import Mathlib.Data.List.Destutter

/-! # The chain of the pruning points

`ArePruningPointsInValidChain` of `domain/consensus/processes/pruningmanager/pruningmanager.go`. The
queue is indexed without a look at its length: it can run dry while stored pruning points are left.
-/

namespace Kaspad.Pruning
open Lib List

/-! ## The code -/

/-- What `IsValidPruningPoint` and the check of the chain of pruning points read. -/
structure ChainStores where
  genesisHash : DomainHash
  headersSelectedTip : DomainHash
  headerPruningPoint : DomainHash → Option DomainHash
  selectedParent : DomainHash → Option DomainHash
  currentPruningPointIndex : ℕ
  pruningPointByIndex : ℕ → Option DomainHash

inductive ChainError
  | notFound
  | indexOutOfRange
  | moreRounds
  deriving DecidableEq

def fetched {α : Type} : Option α → Except ChainError α
  | some a => .ok a
  | none => .error .notFound

section
variable (s : ChainStores)

def expect (expectedPruningPoints : List DomainHash) (pruningPoint : DomainHash) : List DomainHash :=
  if expectedPruningPoints.getLast? = some pruningPoint then expectedPruningPoints
  else expectedPruningPoints ++ [pruningPoint]

def expectedOnChain (lastPruningPoint : DomainHash) :
    ℕ → DomainHash → List DomainHash → Except ChainError (List DomainHash)
  | rounds, current, expectedPruningPoints =>
    if current = lastPruningPoint then .ok expectedPruningPoints
    else
      match rounds with
      | 0 => .error .moreRounds
      | rounds + 1 => do
        let pruningPoint ← fetched (s.headerPruningPoint current)
        let selectedParent ← fetched (s.selectedParent current)
        expectedOnChain lastPruningPoint rounds selectedParent (expect expectedPruningPoints pruningPoint)

def checkStored : ℕ → List DomainHash → Except ChainError Bool
  | i, expectedPruningPoints => do
    let pruningPoint ← fetched (s.pruningPointByIndex i)
    let headerPruningPoint ← fetched (s.headerPruningPoint pruningPoint)
    match expectedPruningPoints with
    | [] => .error .indexOutOfRange
    | expectedPruningPoint :: expectedPruningPoints =>
      if pruningPoint ≠ expectedPruningPoint then .ok false
      else
        match i with
        | 0 => .ok (decide (expectedPruningPoints.length = 0 ∧ pruningPoint = s.genesisHash))
        | i + 1 =>
          if expectedPruningPoints.length = 0 then .error .indexOutOfRange
          else checkStored i (expect expectedPruningPoints headerPruningPoint)

def arePruningPointsInValidChain (rounds : ℕ) : Except ChainError Bool := do
  let lastPruningPoint ← fetched (s.pruningPointByIndex s.currentPruningPointIndex)
  let expectedPruningPoints ← expectedOnChain s lastPruningPoint rounds s.headersSelectedTip []
  checkStored s s.currentPruningPointIndex expectedPruningPoints

end

/-! ## The expected pruning points -/

def distinct (values : List DomainHash) : List DomainHash := values.destutter (· ≠ ·)

variable {queue : List DomainHash}

theorem expect_cons (first value : DomainHash) (hqueue : queue ≠ []) :
    expect (first :: queue) value = first :: expect queue value := by
  have hlast : (first :: queue).getLast? = queue.getLast? := by
    rw [List.getLast?_cons, List.getLast?_eq_some_getLast hqueue, Option.getD_some]
  unfold expect
  rw [hlast]
  split_ifs <;> rfl

theorem expect_ne_nil (queue : List DomainHash) (value : DomainHash) : expect queue value ≠ [] := by
  unfold expect
  split_ifs with hlast
  · rintro rfl
    cases hlast
  · simp

theorem foldl_expect_cons (first : DomainHash) (values : List DomainHash) (hqueue : queue ≠ []) :
    values.foldl expect (first :: queue) = first :: values.foldl expect queue := by
  induction values generalizing queue with
  | nil => rfl
  | cons value values ih =>
    rw [foldl_cons, expect_cons first value hqueue, ih (expect_ne_nil queue value), foldl_cons]

theorem foldl_expect_step (first value : DomainHash) (values : List DomainHash) (hqueue : queue ≠ []) :
    (value :: values).foldl expect (first :: queue) = first :: values.foldl expect (expect queue value) := by
  rw [foldl_cons, expect_cons first value hqueue, foldl_expect_cons first values (expect_ne_nil queue value)]

theorem destutter'_concat (first value : DomainHash) (values : List DomainHash) :
    (values ++ [value]).destutter' (· ≠ ·) first = expect (values.destutter' (· ≠ ·) first) value := by
  induction values generalizing first with
  | nil =>
    rw [nil_append, List.destutter'_singleton, List.destutter'_nil]
    by_cases h : first = value
    · simp [expect, h]
    · simp [expect, h]
  | cons head values ih =>
    rw [cons_append]
    by_cases h : first ≠ head
    · rw [List.destutter'_cons_pos _ h, List.destutter'_cons_pos _ h, ih,
        expect_cons first value (List.destutter'_ne_nil _ _)]
    · rw [List.destutter'_cons_neg _ h, List.destutter'_cons_neg _ h, ih]

theorem distinct_concat (values : List DomainHash) (value : DomainHash) :
    distinct (values ++ [value]) = expect (distinct values) value := by
  cases values with
  | nil => rfl
  | cons first values => exact destutter'_concat first value values

theorem foldl_expect (values more : List DomainHash) :
    more.foldl expect (distinct values) = distinct (values ++ more) := by
  induction more generalizing values with
  | nil => simp
  | cons value more ih =>
    rw [foldl_cons, ← distinct_concat, ih, append_assoc, singleton_append]

/-! ## The loops -/

section
variable {s : ChainStores}

theorem expectedOnChain_ok {lastPruningPoint current : DomainHash} {chain values : List DomainHash} {rounds : ℕ}
    (hchain : ParentChain.Descent s.selectedParent current chain lastPruningPoint) (hlast : lastPruningPoint ∉ chain)
    (hvalues : List.Forall₂ (fun block value => s.headerPruningPoint block = some value) chain values)
    (hrounds : chain.length ≤ rounds) (queue : List DomainHash) :
    expectedOnChain s lastPruningPoint rounds current queue = .ok (values.foldl expect queue) := by
  induction hvalues generalizing current rounds queue with
  | nil =>
    obtain rfl : current = lastPruningPoint := hchain
    unfold expectedOnChain
    rw [if_pos rfl, foldl_nil]
  | @cons block value chain values hvalue _ ih =>
    obtain ⟨rfl, parent, hparent, hrest⟩ := hchain
    obtain ⟨rounds, rfl⟩ : ∃ r, rounds = r + 1 := ⟨rounds - 1, by simp at hrounds; omega⟩
    obtain ⟨hne, hlast⟩ := not_or.mp fun hor => hlast (mem_cons.mpr hor)
    unfold expectedOnChain
    rw [if_neg (Ne.symm hne), hvalue, hparent]
    exact ih hrest hlast (by simpa using hrounds) _

def StoredFrom (s : ChainStores) : ℕ → List (DomainHash × DomainHash) → Prop
  | _, [] => False
  | 0, point :: points => s.pruningPointByIndex 0 = some point.1 ∧ s.headerPruningPoint point.1 = some point.2 ∧ points = []
  | i + 1, point :: points =>
    s.pruningPointByIndex (i + 1) = some point.1 ∧ s.headerPruningPoint point.1 = some point.2 ∧ StoredFrom s i points

def RunsDryFrom (queue : List DomainHash) (points : List (DomainHash × DomainHash)) : Prop :=
  ∃ j, j + 1 < points.length ∧ (points.map Prod.fst).take (j + 1) = ((points.map Prod.snd).take j).foldl expect queue

def FitsFrom (genesisHash : DomainHash) (queue : List DomainHash) (points : List (DomainHash × DomainHash)) : Prop :=
  points.map Prod.fst = (points.dropLast.map Prod.snd).foldl expect queue ∧
    (points.map Prod.fst).getLast? = some genesisHash

variable {queue : List DomainHash} {points : List (DomainHash × DomainHash)}

theorem foldl_expect_ne {rest values : List DomainHash} {first expected : DomainHash} (hne : first ≠ expected) :
    first :: rest ≠ values.foldl expect (expected :: queue) := by
  intro heq
  have hhead : ∀ (values queue : List DomainHash), ∃ tail, values.foldl expect (expected :: queue) = expected :: tail := by
    intro values
    induction values with
    | nil => exact fun queue => ⟨queue, rfl⟩
    | cons value values ih =>
      intro queue
      rw [foldl_cons]
      unfold expect
      split_ifs
      · exact ih queue
      · exact ih (queue ++ [value])
  obtain ⟨tail, htail⟩ := hhead values queue
  rw [htail] at heq
  exact hne (List.cons.inj heq).1

theorem runsDryFrom_cons {point next : DomainHash × DomainHash} (hqueue : queue ≠ []) :
    RunsDryFrom (point.1 :: queue) (point :: next :: points) ↔ RunsDryFrom (expect queue point.2) (next :: points) := by
  constructor
  · rintro ⟨j, hj, heq⟩
    cases j with
    | zero => exact absurd (List.cons.inj heq).2.symm hqueue
    | succ j =>
      refine ⟨j, by simpa using hj, ?_⟩
      have hstep := heq.trans (foldl_expect_step point.1 point.2 (((next :: points).map Prod.snd).take j) hqueue)
      exact (List.cons.inj hstep).2
  · rintro ⟨j, hj, heq⟩
    refine ⟨j + 1, by simpa using hj, ?_⟩
    have hstep := foldl_expect_step point.1 point.2 (((next :: points).map Prod.snd).take j) hqueue
    exact (congrArg (point.1 :: ·) heq).trans hstep.symm

theorem fitsFrom_cons {genesisHash : DomainHash} {point next : DomainHash × DomainHash} (hqueue : queue ≠ []) :
    FitsFrom genesisHash (point.1 :: queue) (point :: next :: points) ↔
      FitsFrom genesisHash (expect queue point.2) (next :: points) := by
  have hstep := foldl_expect_step point.1 point.2 ((next :: points).dropLast.map Prod.snd) hqueue
  unfold FitsFrom
  rw [dropLast_cons_of_ne_nil (cons_ne_nil _ _), map_cons (f := Prod.snd), hstep, map_cons,
    cons_inj_right, map_cons, List.getLast?_cons_cons]

theorem checkStored_spec {i : ℕ} (h : StoredFrom s i points) (hqueue : queue ≠ []) :
    (RunsDryFrom queue points → checkStored s i queue = .error .indexOutOfRange) ∧ (¬RunsDryFrom queue points →
        ∃ b, checkStored s i queue = .ok b ∧ (b = true ↔ FitsFrom s.genesisHash queue points)) := by
  induction i generalizing points queue with
  | zero =>
    obtain ⟨expected, queue, rfl⟩ := exists_cons_of_ne_nil hqueue
    cases points with
    | nil => exact h.elim
    | cons point points =>
      obtain ⟨hpoint, hheader, rfl⟩ := h
      refine ⟨fun ⟨j, hj, _⟩ => by simp at hj, fun _ => ?_⟩
      have hcheck : checkStored s 0 (expected :: queue) = if point.1 ≠ expected then .ok false
          else .ok (decide (queue.length = 0 ∧ point.1 = s.genesisHash)) := by
        unfold checkStored
        rw [hpoint]
        simp only [fetched, ok_bind, hheader]
      rw [hcheck]
      split_ifs with hne
      · exact ⟨false, rfl, iff_of_false (by simp) fun hfits => foldl_expect_ne hne hfits.1⟩
      obtain rfl := not_not.mp hne
      refine ⟨_, rfl, decide_eq_true_iff.trans ?_⟩
      constructor
      · rintro ⟨hempty, hgenesis⟩
        obtain rfl := length_eq_zero_iff.mp hempty
        exact ⟨rfl, congrArg some hgenesis⟩
      · rintro ⟨hpoints, hgenesis⟩
        exact ⟨by rw [← (List.cons.inj hpoints).2]; rfl, Option.some.inj hgenesis⟩
  | succ i ih =>
    obtain ⟨expected, queue, rfl⟩ := exists_cons_of_ne_nil hqueue
    cases points with
    | nil => exact h.elim
    | cons point points =>
      obtain ⟨hpoint, hheader, hrest⟩ := h
      obtain ⟨next, points, rfl⟩ : ∃ next rest, points = next :: rest := by
        cases points with
        | nil => cases i <;> exact hrest.elim
        | cons next rest => exact ⟨next, rest, rfl⟩
      have hcheck : checkStored s (i + 1) (expected :: queue) = if point.1 ≠ expected then .ok false
          else if queue.length = 0 then .error .indexOutOfRange
          else checkStored s i (expect queue point.2) := by
        rw [checkStored.eq_def]
        dsimp only
        rw [hpoint]
        simp only [fetched, ok_bind, hheader]
      rw [hcheck]
      by_cases hne : point.1 ≠ expected
      · rw [if_pos hne]
        refine ⟨fun ⟨j, _, heq⟩ => absurd heq (foldl_expect_ne hne), fun _ => ⟨false, rfl, ?_⟩⟩
        exact iff_of_false (by simp) fun hfits => foldl_expect_ne hne hfits.1
      rw [if_neg hne]
      obtain rfl := not_not.mp hne
      by_cases hempty : queue.length = 0
      · rw [if_pos hempty]
        obtain rfl := length_eq_zero_iff.mp hempty
        exact ⟨fun _ => rfl, fun hdry => absurd ⟨0, by simp, rfl⟩ hdry⟩
      rw [if_neg hempty]
      have hqueue : queue ≠ [] := fun hnil => hempty (by rw [hnil]; rfl)
      rw [runsDryFrom_cons hqueue, fitsFrom_cons hqueue]
      exact ih hrest (expect_ne_nil queue point.2)

end

/-! ## The check -/

/-- The selected chain down to the last pruning point and the stored pruning points, each with the pruning point of
its header. -/
structure Chains (s : ChainStores) (chain values : List DomainHash) (points : List (DomainHash × DomainHash)) : Prop where
  stored : StoredFrom s s.currentPruningPointIndex points
  descent : ∀ point ∈ points.head?, ParentChain.Descent s.selectedParent s.headersSelectedTip chain point.1
  last : ∀ point ∈ points.head?, point.1 ∉ chain
  values : List.Forall₂ (fun block value => s.headerPruningPoint block = some value) chain values

/-- No block is above the last pruning point, or at some stored pruning point all that was expected has been taken.
-/
def RunsDry (values : List DomainHash) (points : List (DomainHash × DomainHash)) : Prop :=
  values = [] ∨ ∃ j, j + 1 < points.length ∧
    (points.map Prod.fst).take (j + 1) = distinct (values ++ (points.map Prod.snd).take j)

/-- The stored pruning points are those that the chain and then the headers above index 0 refer to. -/
def ValidChain (genesisHash : DomainHash) (values : List DomainHash) (points : List (DomainHash × DomainHash)) : Prop :=
  (points.map Prod.fst).getLast? = some genesisHash ∧
    points.map Prod.fst = distinct (values ++ points.dropLast.map Prod.snd)

/-- The check returns exactly if the queue of expected pruning points does not run dry. -/
theorem arePruningPointsInValidChain_iff (s : ChainStores) {chain values : List DomainHash}
    {points : List (DomainHash × DomainHash)} (h : Chains s chain values points) {rounds : ℕ}
    (hrounds : chain.length ≤ rounds) :
    (∃ b, arePruningPointsInValidChain s rounds = .ok b ∧ (b = true ↔ ValidChain s.genesisHash values points)) ↔
      ¬RunsDry values points := by
  obtain ⟨point, points, rfl⟩ : ∃ point rest, points = point :: rest := by
    cases points with
    | nil => cases hi : s.currentPruningPointIndex <;> exact (hi ▸ h.stored).elim
    | cons point rest => exact ⟨point, rest, rfl⟩
  have hpoint : s.pruningPointByIndex s.currentPruningPointIndex = some point.1 := by
    have hstored := h.stored
    cases hi : s.currentPruningPointIndex <;> exact (hi ▸ hstored).1
  have hqueue : values.foldl expect [] = distinct values := foldl_expect [] values
  have hcheck : arePruningPointsInValidChain s rounds =
      checkStored s s.currentPruningPointIndex (distinct values) := by
    unfold arePruningPointsInValidChain
    rw [hpoint]
    simp only [fetched, ok_bind]
    rw [expectedOnChain_ok (h.descent point rfl) (h.last point rfl) h.values hrounds, hqueue]
    rfl
  rw [hcheck]
  by_cases hvalues : values = []
  · -- Nothing is expected, so the first stored pruning point is compared with nothing.
    subst hvalues
    have hempty : checkStored s s.currentPruningPointIndex (distinct []) = .error .indexOutOfRange := by
      have hheader : ∃ value, s.headerPruningPoint point.1 = some value := by
        have hstored := h.stored
        cases hi : s.currentPruningPointIndex <;> exact ⟨_, (hi ▸ hstored).2.1⟩
      obtain ⟨value, hvalue⟩ := hheader
      rw [checkStored.eq_def]
      dsimp only
      rw [hpoint]
      simp only [fetched, ok_bind, hvalue]
      rfl
    rw [hempty]
    exact iff_of_false (by rintro ⟨b, hb, -⟩; cases hb) (not_not.mpr (.inl rfl))
  have hne : distinct values ≠ [] := fun hnil => hvalues ((destutter_eq_nil _).mp hnil)
  have hdry : RunsDry values (point :: points) ↔ RunsDryFrom (distinct values) (point :: points) := by
    unfold RunsDry RunsDryFrom
    simp only [foldl_expect, or_iff_right hvalues]
  have hfits : ValidChain s.genesisHash values (point :: points) ↔
      FitsFrom s.genesisHash (distinct values) (point :: points) := by
    unfold ValidChain FitsFrom
    rw [foldl_expect]
    exact and_comm
  obtain ⟨hpanics, hreturns⟩ := checkStored_spec h.stored hne
  rw [hdry, hfits]
  constructor
  · rintro ⟨b, hb, -⟩ hruns
    rw [hpanics hruns] at hb
    cases hb
  · exact hreturns

def sampleStores (tip : DomainHash) (headers : List (DomainHash × DomainHash)) : ChainStores where
  genesisHash := 1
  headersSelectedTip := tip
  headerPruningPoint := fun block => headers.lookup block
  selectedParent := fun block => if block = 4 then some 3 else if block = 3 then some 2 else if block = 2 then some 1 else none
  currentPruningPointIndex := 1
  pruningPointByIndex := fun i => [1, 2][i]?

theorem arePruningPointsInValidChain_iff_two_blocks :
    Chains (sampleStores 4 [(1, 0), (2, 1), (3, 1), (4, 2)]) [4, 3] [2, 1] [(2, 1), (1, 0)] ∧
      ∃ b, arePruningPointsInValidChain (sampleStores 4 [(1, 0), (2, 1), (3, 1), (4, 2)]) 2 = .ok b ∧
        (b = true ↔ ValidChain 1 [2, 1] [(2, 1), (1, 0)]) := by
  have hchains : Chains (sampleStores 4 [(1, 0), (2, 1), (3, 1), (4, 2)]) [4, 3] [2, 1] [(2, 1), (1, 0)] := by
    refine ⟨⟨rfl, rfl, rfl, rfl, rfl⟩, ?_, ?_, .cons rfl (.cons rfl .nil)⟩
    · rintro _ ⟨⟩
      exact ⟨rfl, 3, rfl, rfl, 2, rfl, rfl⟩
    rintro _ ⟨⟩
    decide
  refine ⟨hchains, (arePruningPointsInValidChain_iff _ hchains (le_refl 2)).mpr ?_⟩
  rintro (hnil | ⟨j, hj, heq⟩)
  · cases hnil
  obtain rfl : j = 0 := by simpa using hj
  exact absurd heq (by decide)

/-- The pruning points are those that the headers refer to, but the queue is empty after the first one. -/
theorem valid_chain_runs_dry : Chains (sampleStores 3 [(1, 0), (2, 1), (3, 2)]) [3] [2] [(2, 1), (1, 0)] ∧
      ValidChain 1 [2] [(2, 1), (1, 0)] ∧
      arePruningPointsInValidChain (sampleStores 3 [(1, 0), (2, 1), (3, 2)]) 1 = .error .indexOutOfRange := by
  refine ⟨⟨⟨rfl, rfl, rfl, rfl, rfl⟩, ?_, ?_, .cons rfl .nil⟩, ⟨rfl, by decide⟩, by decide⟩
  · rintro _ ⟨⟩
    exact ⟨rfl, 2, rfl, rfl⟩
  rintro _ ⟨⟩
  decide

end Kaspad.Pruning
