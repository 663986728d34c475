import Kaspad.Traversal.SelectedChain

/-! # Block locators

`createBlockLocator` of `domain/consensus/processes/syncmanager/blocklocator.go`: the blocks of the
selected chain from `highHash` down, at distances that double. The next block is found by its blue
score. Where the blue score of the chain jumps over the wanted one the walk stays where it is, so
that a locator may repeat a block, or never end.
-/

namespace Kaspad.Sync
open Lib Lib.ParentChain Ghostdag Traversal List Nat

variable (m : Traversal.Manager) (st : Stores)

def nextBlueScore (lowBlockBlueScore currentBlockBlueScore step : ℕ) : ℕ :=
  if currentBlockBlueScore < step ∨ currentBlockBlueScore - step < lowBlockBlueScore then lowBlockBlueScore
  else currentBlockBlueScore - step

def createBlockLocatorLoop (rounds : ℕ) (lowHash : DomainHash) (lowBlockBlueScore : ℕ) (limit : UInt32) :
    ℕ → DomainHash → ℕ → List DomainHash → Except TraversalError (List DomainHash)
  | 0, _, _, _ => throw .running
  | n + 1, currentHash, step, locator =>
    let locator := locator ++ [currentHash]
    if 0 < limit.toNat ∧ locator.length % 2 ^ 32 = limit.toNat then pure locator
    else do
      let currentBlockGHOSTDAGData ← ghostdagData st currentHash
      let currentBlockBlueScore := currentBlockGHOSTDAGData.blueScore
      if currentBlockBlueScore ≤ lowBlockBlueScore then
        if m.isInSelectedParentChainOf currentHash lowHash then pure locator
        else throw .notInTheSameSelectedParentChain
      else
        let currentHash ← lowestChainBlockAboveOrEqualToBlueScore m st rounds currentHash
          (nextBlueScore lowBlockBlueScore currentBlockBlueScore step)
        createBlockLocatorLoop rounds lowHash lowBlockBlueScore limit n currentHash (step * 2 % 2 ^ 64) locator

def createBlockLocator (rounds : ℕ) (lowHash highHash : DomainHash) (limit : UInt32) :
    Except TraversalError (List DomainHash) := do
  let lowBlockGHOSTDAGData ← ghostdagData st lowHash
  createBlockLocatorLoop m st rounds lowHash lowBlockGHOSTDAGData.blueScore limit rounds highHash 1 []

/-! ## The blocks that the walk visits -/

/-- The block that the walk is at in round `k`. -/
def locatorPoint (lowHash highHash : DomainHash) : ℕ → DomainHash
  | 0 => highHash
  | k + 1 =>
    let current := locatorPoint lowHash highHash k
    (lowestChainBlockAboveOrEqualToBlueScore m st (score st current + 1) current
      (nextBlueScore (score st lowHash) (score st current) (2 ^ k % 2 ^ 64))).toOption.getD current

/-- The limit is not reached in round `k`, and its block is above the blue score of `lowHash`. -/
def Continues (lowHash highHash : DomainHash) (limit : UInt32) (k : ℕ) : Prop :=
  (limit = 0 ∨ k + 1 < limit.toNat) ∧ score st lowHash < score st (locatorPoint m st lowHash highHash k)

section
variable {m st} {lowHash highHash : DomainHash} {limit : UInt32}

theorem le_nextBlueScore (low current step : ℕ) : low ≤ nextBlueScore low current step := by
  unfold nextBlueScore
  split_ifs <;> omega

theorem nextBlueScore_le {low current : ℕ} (step : ℕ) (h : low ≤ current) :
    nextBlueScore low current step ≤ current := by
  unfold nextBlueScore
  split_ifs <;> omega

variable (htree : SelectedTree m.genesisHash st) (hhigh : Known st highHash) {k rounds : ℕ}
include htree in
theorem locatorPoint_succ (hknown : Known st (locatorPoint m st lowHash highHash k))
    (hscore : score st lowHash ≤ score st (locatorPoint m st lowHash highHash k))
    (hrounds : score st (locatorPoint m st lowHash highHash k) < rounds) :
    lowestChainBlockAboveOrEqualToBlueScore m st rounds (locatorPoint m st lowHash highHash k)
        (nextBlueScore (score st lowHash) (score st (locatorPoint m st lowHash highHash k))
          (2 ^ k % 2 ^ 64)) = .ok (locatorPoint m st lowHash highHash (k + 1)) ∧
      IsLowestAbove m.genesisHash st (locatorPoint m st lowHash highHash k)
        (nextBlueScore (score st lowHash) (score st (locatorPoint m st lowHash highHash k)) (2 ^ k % 2 ^ 64))
        (locatorPoint m st lowHash highHash (k + 1)) := by
  have htarget := nextBlueScore_le (2 ^ k % 2 ^ 64) hscore
  obtain ⟨l, hl, hlowest⟩ := lowestChainBlock_spec htree hknown htarget hrounds
  obtain ⟨l', hl', hlowest'⟩ := lowestChainBlock_spec htree hknown htarget (lt_succ_self _)
  have hpoint : locatorPoint m st lowHash highHash (k + 1) = l' := by
    unfold locatorPoint
    simp only
    rw [hl']
    rfl
  rw [hpoint, hl, hlowest.unique htree hlowest']
  exact ⟨rfl, hlowest'⟩

include htree hhigh in
theorem locatorPoint_onChain (lowHash : DomainHash) (k : ℕ) : Known st (locatorPoint m st lowHash highHash k) ∧
      OnChain (chainParent st m.genesisHash) (locatorPoint m st lowHash highHash (k + 1))
        (locatorPoint m st lowHash highHash k) := by
  have hstep : ∀ k, Known st (locatorPoint m st lowHash highHash k) →
      OnChain (chainParent st m.genesisHash) (locatorPoint m st lowHash highHash (k + 1))
        (locatorPoint m st lowHash highHash k) := by
    intro k hknown
    by_cases hscore : nextBlueScore (score st lowHash) (score st (locatorPoint m st lowHash highHash k))
        (2 ^ k % 2 ^ 64) ≤ score st (locatorPoint m st lowHash highHash k)
    · have hlow := (le_nextBlueScore _ _ _).trans hscore
      exact (locatorPoint_succ htree hknown hlow (lt_succ_self _)).2.1
    -- The search refuses a blue score above that of the block, and the walk stays.
    obtain ⟨d, hd⟩ := hknown
    have hstay : locatorPoint m st lowHash highHash (k + 1) = locatorPoint m st lowHash highHash k := by
      rw [locatorPoint]
      unfold lowestChainBlockAboveOrEqualToBlueScore
      rw [score_eq hd] at hscore ⊢
      simp only [ghostdagData_eq hd, ok_bind, if_pos (Nat.lt_of_not_le hscore)]
      rfl
    rw [hstay]
    exact .refl
  induction k with
  | zero => exact ⟨hhigh, hstep 0 hhigh⟩
  | succ k ih =>
    have hknown := htree.known_of_onChain ih.2 ih.1
    exact ⟨hknown, hstep (k + 1) hknown⟩

include htree hhigh in
theorem locatorPoint_antitone (lowHash : DomainHash) {j : ℕ} (h : j ≤ k) :
    OnChain (chainParent st m.genesisHash) (locatorPoint m st lowHash highHash k)
      (locatorPoint m st lowHash highHash j) := by
  induction h with
  | refl => exact .refl
  | @step k _ ih => exact Relation.ReflTransGen.trans (locatorPoint_onChain htree hhigh lowHash k).2 ih

include htree hhigh in
theorem score_locatorPoint_le (lowHash : DomainHash) {j : ℕ} (h : j ≤ k) :
    score st (locatorPoint m st lowHash highHash k) ≤ score st (locatorPoint m st lowHash highHash j) :=
  OnChain.rank_le htree.rank (locatorPoint_antitone htree hhigh lowHash h)

include htree hhigh in
theorem Continues.earlier {j : ℕ} (hk : Continues m st lowHash highHash limit k) (h : j ≤ k) :
    Continues m st lowHash highHash limit j := by
  have hle := score_locatorPoint_le htree hhigh lowHash h
  exact ⟨hk.1.imp_right fun hlt => by omega, hk.2.trans_le hle⟩

/-! ## What the loop returns -/

theorem points_succ (k : ℕ) : (List.range (k + 1)).map (locatorPoint m st lowHash highHash) =
    (List.range k).map (locatorPoint m st lowHash highHash) ++ [locatorPoint m st lowHash highHash k] := by
  rw [range_succ, map_append, map_singleton]

theorem not_full (h : limit = 0 ∨ k + 1 < limit.toNat) : ¬ (0 < limit.toNat ∧ (k + 1) % 2 ^ 32 = limit.toNat) := by
  rintro ⟨hpos, heq⟩
  rcases h with rfl | h
  · simp at hpos
  rw [mod_eq_of_lt (by omega)] at heq
  omega

theorem open_of_continues (hcontinues : ∀ j < k, Continues m st lowHash highHash limit j)
    (hlimit : limit.toNat ≠ k + 1) : limit = 0 ∨ k + 1 < limit.toNat := by
  cases k with
  | zero => exact (Nat.eq_zero_or_pos limit.toNat).imp (fun h => UInt32.toNat.inj h) fun h => by omega
  | succ k => exact (hcontinues k (by omega)).1.imp_right fun h => by omega

theorem score_le_of_ends (hcontinues : ∀ j < k, Continues m st lowHash highHash limit j)
    (hends : ¬ Continues m st lowHash highHash limit k) (hlimit : limit.toNat ≠ k + 1) :
    score st (locatorPoint m st lowHash highHash k) ≤ score st lowHash := by
  by_contra hnot
  exact hends ⟨open_of_continues hcontinues hlimit, by omega⟩

include htree hhigh in
theorem createBlockLocatorLoop_continues (hk : Continues m st lowHash highHash limit k)
    (hrounds : score st highHash < rounds) (n : ℕ) :
    createBlockLocatorLoop m st rounds lowHash (score st lowHash) limit (n + 1)
        (locatorPoint m st lowHash highHash k) (2 ^ k % 2 ^ 64)
        ((List.range k).map (locatorPoint m st lowHash highHash)) =
      createBlockLocatorLoop m st rounds lowHash (score st lowHash) limit n
        (locatorPoint m st lowHash highHash (k + 1)) (2 ^ (k + 1) % 2 ^ 64)
        ((List.range (k + 1)).map (locatorPoint m st lowHash highHash)) := by
  obtain ⟨hlimit, hscore⟩ := hk
  obtain ⟨d, hd⟩ := (locatorPoint_onChain htree hhigh lowHash k).1
  have hle := score_locatorPoint_le htree hhigh lowHash (zero_le k)
  have hnext := (locatorPoint_succ htree ⟨d, hd⟩ hscore.le (hle.trans_lt hrounds)).1
  have hstep : 2 ^ k % 2 ^ 64 * 2 % 2 ^ 64 = 2 ^ (k + 1) % 2 ^ 64 := by
    rw [pow_succ 2 k, mul_mod, mod_mod, ← mul_mod]
  rw [createBlockLocatorLoop]
  simp only [← points_succ, length_map, length_range]
  rw [if_neg (not_full hlimit)]
  rw [score_eq hd] at hnext hscore
  simp only [ghostdagData_eq hd, ok_bind, if_neg (not_le.mpr hscore), hnext, hstep]

/-- What the call returns if round `k` is the last one. -/
def locatorResult (m : Traversal.Manager) (st : Stores) (lowHash highHash : DomainHash) (limit : UInt32)
    (k : ℕ) : Except TraversalError (List DomainHash) :=
  if limit.toNat = k + 1 ∨ m.isInSelectedParentChainOf (locatorPoint m st lowHash highHash k) lowHash = true then
    .ok ((List.range (k + 1)).map (locatorPoint m st lowHash highHash))
  else .error .notInTheSameSelectedParentChain

include htree hhigh in
theorem createBlockLocatorLoop_run (hcontinues : ∀ j < k, Continues m st lowHash highHash limit j)
    (hrounds : score st highHash < rounds) (n : ℕ) :
    createBlockLocatorLoop m st rounds lowHash (score st lowHash) limit (n + k) highHash 1 [] =
      createBlockLocatorLoop m st rounds lowHash (score st lowHash) limit n
        (locatorPoint m st lowHash highHash k) (2 ^ k % 2 ^ 64)
        ((List.range k).map (locatorPoint m st lowHash highHash)) := by
  induction k generalizing n with
  | zero => rfl
  | succ k ih =>
    have hassoc : n + (k + 1) = n + 1 + k := by omega
    rw [hassoc, ih (fun j hj => hcontinues j (by omega)),
      createBlockLocatorLoop_continues htree hhigh (hcontinues k (by omega)) hrounds]

variable (hlow : Known st lowHash)
include hlow in
theorem createBlockLocator_eq (rounds : ℕ) : createBlockLocator m st rounds lowHash highHash limit =
    createBlockLocatorLoop m st rounds lowHash (score st lowHash) limit rounds highHash 1 [] := by
  obtain ⟨d, hd⟩ := hlow
  unfold createBlockLocator
  simp only [ghostdagData_eq hd, ok_bind, score_eq hd]

include htree hhigh hlow in
theorem createBlockLocator_ends (hcontinues : ∀ j < k, Continues m st lowHash highHash limit j)
    (hends : ¬ Continues m st lowHash highHash limit k) (hrounds : score st highHash < rounds) (hk : k < rounds) :
    createBlockLocator m st rounds lowHash highHash limit = locatorResult m st lowHash highHash limit k := by
  obtain ⟨n, rfl⟩ : ∃ n, rounds = n + 1 + k := ⟨rounds - k - 1, by omega⟩
  obtain ⟨d, hd⟩ := (locatorPoint_onChain htree hhigh lowHash k).1
  have hlt := limit.toNat_lt
  rw [createBlockLocator_eq hlow, createBlockLocatorLoop_run htree hhigh hcontinues hrounds, createBlockLocatorLoop]
  simp only [← points_succ, length_map, length_range]
  unfold locatorResult
  by_cases hlimit : limit.toNat = k + 1
  · rw [if_pos ⟨by omega, by rw [mod_eq_of_lt (by omega), hlimit]⟩, if_pos (.inl hlimit)]
    rfl
  have hscore := score_le_of_ends hcontinues hends hlimit
  rw [if_neg (not_full (open_of_continues hcontinues hlimit))]
  rw [score_eq hd] at hscore
  simp only [ghostdagData_eq hd, ok_bind, if_pos hscore]
  simp only [hlimit, false_or]
  rfl

include htree hhigh hlow in
theorem createBlockLocator_running (hcontinues : ∀ k, Continues m st lowHash highHash limit k)
    (hrounds : score st highHash < rounds) :
    createBlockLocator m st rounds lowHash highHash limit = .error .running := by
  have hrun := createBlockLocatorLoop_run htree hhigh (k := rounds) (fun j _ => hcontinues j) hrounds 0
  rw [zero_add] at hrun
  rw [createBlockLocator_eq hlow, hrun]
  rfl

/-! ## When the locator is right -/

/-- The call fails when `lowHash` is not on the selected chain, and else lists blocks of it, strictly down to
`lowHash` or the limit. -/
def LocatorCorrect (m : Traversal.Manager) (st : Stores) (lowHash highHash : DomainHash) (limit : UInt32) : Prop :=
  ∃ result, result ≠ .error .running ∧
    (∃ n, ∀ rounds ≥ n, createBlockLocator m st rounds lowHash highHash limit = result) ∧
    (¬ OnChain (chainParent st m.genesisHash) lowHash highHash → ∃ error, result = .error error) ∧
    (OnChain (chainParent st m.genesisHash) lowHash highHash → ∃ locator, result = .ok locator ∧
      locator.Nodup ∧ locator.head? = some highHash ∧
      locator.Pairwise (fun a b => OnChain (chainParent st m.genesisHash) b a ∧ b ≠ a) ∧
      (limit = 0 ∨ locator.length < limit.toNat → locator.getLast? = some lowHash))

/-- `lowHash` is on the chain and no round jumps over the wanted blue score; or the walk reaches the blue score of
`lowHash` before the limit. -/
def LocatorCondition (m : Traversal.Manager) (st : Stores) (lowHash highHash : DomainHash) (limit : UInt32) : Prop :=
  (m.isInSelectedParentChainOf lowHash highHash = true ∧ ∀ k, Continues m st lowHash highHash limit k →
      ∀ p, chainParent st m.genesisHash (locatorPoint m st lowHash highHash k) = some p →
        nextBlueScore (score st lowHash) (score st (locatorPoint m st lowHash highHash k)) (2 ^ k % 2 ^ 64) ≤
          score st p) ∨
  (m.isInSelectedParentChainOf lowHash highHash = false ∧ m.isInSelectedParentChainOf highHash lowHash = false ∧
    ∃ k, (limit = 0 ∨ k + 1 < limit.toNat) ∧ score st (locatorPoint m st lowHash highHash k) ≤ score st lowHash)

include htree hhigh in
/-- Without a limit the walk comes down to the blue score of `lowHash` exactly if it starts there, or the chain has
a block of that blue score. -/
theorem exists_locatorPoint_le_iff (hbound : score st highHash ≤ 2 ^ 63) :
    (∃ k, score st (locatorPoint m st lowHash highHash k) ≤ score st lowHash) ↔
      score st highHash ≤ score st lowHash ∨
        ∃ b, OnChain (chainParent st m.genesisHash) b highHash ∧ score st b = score st lowHash := by
  constructor
  · rintro ⟨k, hk⟩
    induction k with
    | zero => exact .inl hk
    | succ k ih =>
      by_cases hscore : score st (locatorPoint m st lowHash highHash k) ≤ score st lowHash
      · exact ih hscore
      have hknown := (locatorPoint_onChain htree hhigh lowHash k).1
      have hlowest := (locatorPoint_succ htree hknown (Nat.le_of_not_le hscore) (lt_succ_self _)).2
      exact .inr ⟨_, locatorPoint_antitone htree hhigh lowHash (zero_le (k + 1)),
        hk.antisymm ((le_nextBlueScore _ _ _).trans hlowest.2.1)⟩
  rintro (hle | ⟨b, hb, hscore⟩)
  · exact ⟨0, hle⟩
  by_contra hnot
  push Not at hnot
  -- A step of 2 ^ 63 asks for the blue score of `lowHash`, and finds the block.
  have hknown := (locatorPoint_onChain htree hhigh lowHash 63).1
  have hlowest := (locatorPoint_succ htree hknown (hnot 63).le (lt_succ_self _)).2
  have hhigh63 := (score_locatorPoint_le htree hhigh lowHash (zero_le 63)).trans hbound
  have htarget : nextBlueScore (score st lowHash) (score st (locatorPoint m st lowHash highHash 63)) (2 ^ 63 % 2 ^ 64) =
      score st lowHash := by
    unfold nextBlueScore
    split_ifs <;> omega
  rw [htarget] at hlowest
  have honChain := hb.of_rank_le htree.rank (locatorPoint_antitone htree hhigh lowHash (zero_le 63))
    (hscore.trans_le (hnot 63).le)
  have heq := hlowest.unique htree ⟨honChain, hscore.ge, fun q hq => hscore ▸ htree.rank b q hq⟩
  have habove := hnot 64
  rw [heq, hscore] at habove
  exact lt_irrefl _ habove

include htree hhigh in
theorem low_onChain_point (hchain : OnChain (chainParent st m.genesisHash) lowHash highHash)
    (hcontinues : ∀ j < k, Continues m st lowHash highHash limit j) :
    OnChain (chainParent st m.genesisHash) lowHash (locatorPoint m st lowHash highHash k) := by
  cases k with
  | zero => exact hchain
  | succ k =>
    have hk := hcontinues k (by omega)
    have hknown := (locatorPoint_onChain htree hhigh lowHash k).1
    have hlowest := (locatorPoint_succ htree hknown hk.2.le (lt_succ_self _)).2
    have hscore := (le_nextBlueScore _ _ _).trans hlowest.2.1
    exact hchain.of_rank_le htree.rank (locatorPoint_antitone htree hhigh lowHash (zero_le (k + 1))) hscore

include htree hhigh in
theorem locatorPoint_succ_ne_iff (hk : Continues m st lowHash highHash limit k)
    (hlow : OnChain (chainParent st m.genesisHash) lowHash (locatorPoint m st lowHash highHash k)) :
    locatorPoint m st lowHash highHash (k + 1) ≠ locatorPoint m st lowHash highHash k ↔
      ∀ p, chainParent st m.genesisHash (locatorPoint m st lowHash highHash k) = some p →
        nextBlueScore (score st lowHash) (score st (locatorPoint m st lowHash highHash k)) (2 ^ k % 2 ^ 64) ≤
          score st p := by
  have hknown := (locatorPoint_onChain htree hhigh lowHash k).1
  have hlowest := (locatorPoint_succ htree hknown hk.2.le (lt_succ_self _)).2
  constructor
  · intro hne p hp
    by_contra hbelow
    refine hne (hlowest.unique htree ⟨.refl, nextBlueScore_le _ hk.2.le, fun q hq => ?_⟩)
    obtain rfl : p = q := by simpa [hp] using hq
    omega
  intro hmoves heq
  have hgenesis : locatorPoint m st lowHash highHash k ≠ m.genesisHash := by
    intro hgenesis
    rw [hgenesis] at hlow
    have hscore := hk.2
    rw [hgenesis, onChain_of_none chainParent_genesis hlow] at hscore
    omega
  obtain ⟨p, hp⟩ := htree.exists_parent hknown hgenesis
  have hlt := hlowest.2.2 p (heq ▸ hp)
  have hle := hmoves p hp
  omega

include htree hhigh hlow in
theorem locator_outcome (limit : UInt32) :
    (∃ k, (∀ j < k, Continues m st lowHash highHash limit j) ∧ ¬ Continues m st lowHash highHash limit k ∧
      ∀ rounds, max (score st highHash) k < rounds →
        createBlockLocator m st rounds lowHash highHash limit = locatorResult m st lowHash highHash limit k) ∨
    (∀ k, Continues m st lowHash highHash limit k) ∧ ∀ rounds, score st highHash < rounds →
        createBlockLocator m st rounds lowHash highHash limit = .error .running := by
  classical
  by_cases hends : ∃ k, ¬ Continues m st lowHash highHash limit k
  · have hfirst := Nat.find_spec hends
    have hbefore : ∀ j < Nat.find hends, Continues m st lowHash highHash limit j :=
      fun j hj => not_not.mp (Nat.find_min hends hj)
    exact .inl ⟨_, hbefore, hfirst, fun rounds hr =>
      createBlockLocator_ends htree hhigh hlow hbefore hfirst (by omega) (by omega)⟩
  · have hall : ∀ k, Continues m st lowHash highHash limit k := by simpa using hends
    exact .inr ⟨hall, fun rounds hr => createBlockLocator_running htree hhigh hlow hall hr⟩

variable (hcorrect : m.ChainsCorrect st)
include htree hhigh hlow hcorrect in
theorem locatorCorrect_of_onChain (hchain : OnChain (chainParent st m.genesisHash) lowHash highHash) :
    LocatorCorrect m st lowHash highHash limit ↔ ∀ k, Continues m st lowHash highHash limit k →
        locatorPoint m st lowHash highHash (k + 1) ≠ locatorPoint m st lowHash highHash k := by
  constructor
  · rintro ⟨result, hnot, ⟨n, hresult⟩, -, hlist⟩ k hk heq
    obtain ⟨locator, rfl, hnodup, -⟩ := hlist hchain
    rcases locator_outcome htree hhigh hlow limit with ⟨e, hbefore, hends, hreturns⟩ | ⟨-, hruns⟩
    · -- The rounds `k` and `k + 1` are both in the list.
      have hke := Nat.lt_of_not_le fun h => hends (hk.earlier htree hhigh h)
      have heq' := (hresult (max n (max (score st highHash) e + 1)) (by omega)).symm.trans (hreturns _ (by omega))
      unfold locatorResult at heq'
      split_ifs at heq'
      cases heq'
      have hinj := inj_on_of_nodup_map hnodup (mem_range.mpr (show k + 1 < e + 1 by omega))
        (mem_range.mpr (show k < e + 1 by omega)) heq
      omega
    · have hrun := hruns (max n (score st highHash + 1)) (by omega)
      rw [hresult _ (by omega)] at hrun
      cases hrun
  intro hmoves
  have hfalls : ∀ k, Continues m st lowHash highHash limit k →
      score st (locatorPoint m st lowHash highHash (k + 1)) <
        score st (locatorPoint m st lowHash highHash k) := fun k hk =>
    OnChain.rank_lt htree.rank (locatorPoint_onChain htree hhigh lowHash k).2 (hmoves k hk)
  rcases locator_outcome htree hhigh hlow limit with ⟨e, hbefore, hends, hreturns⟩ | ⟨hall, -⟩
  · refine ⟨_, ?_, ⟨max (score st highHash) e + 1, fun rounds hr => hreturns rounds (by omega)⟩,
      fun h => absurd hchain h, fun _ => ?_⟩
    · unfold locatorResult
      split_ifs <;> simp
    have hlast : limit.toNat ≠ e + 1 → locatorPoint m st lowHash highHash e = lowHash := by
      intro hlimit
      have hscore := score_le_of_ends hbefore hends hlimit
      exact ((low_onChain_point htree hhigh hchain hbefore).eq_of_rank_le htree.rank hscore).symm
    have hok : locatorResult m st lowHash highHash limit e =
        .ok ((List.range (e + 1)).map (locatorPoint m st lowHash highHash)) := by
      unfold locatorResult
      by_cases hlimit : limit.toNat = e + 1
      · rw [if_pos (.inl hlimit)]
      · rw [hlast hlimit, if_pos (.inr ((hcorrect lowHash lowHash hlow hlow).mpr .refl))]
    have hpairwise : ((List.range (e + 1)).map (locatorPoint m st lowHash highHash)).Pairwise
        fun a b => OnChain (chainParent st m.genesisHash) b a ∧ b ≠ a := by
      refine pairwise_map.mpr (pairwise_lt_range.imp_of_mem fun {i j} _ hj hij => ?_)
      have hj := mem_range.mp hj
      have hstrict := hfalls i (hbefore i (by omega))
      have hle := score_locatorPoint_le htree hhigh lowHash (show i + 1 ≤ j by omega)
      refine ⟨locatorPoint_antitone htree hhigh lowHash hij.le, fun heq => ?_⟩
      rw [heq] at hle
      omega
    refine ⟨_, hok, hpairwise.imp fun h => h.2.symm, by simp [range_succ_eq_map, locatorPoint],
      hpairwise, fun hfree => ?_⟩
    rw [points_succ, List.getLast?_append]
    simp only [length_map, length_range] at hfree
    have hlimit : limit.toNat ≠ e + 1 := by
      rcases hfree with rfl | hfree
      · simp
      · omega
    simp [hlast hlimit]
  · -- The blue score cannot fall for ever.
    have hbound : ∀ k, score st (locatorPoint m st lowHash highHash k) + k ≤ score st highHash := by
      intro k
      induction k with
      | zero => exact le_rfl
      | succ k ih =>
        have := hfalls k (hall k)
        omega
    have := hbound (score st highHash + 1)
    omega

include htree hhigh hlow hcorrect in
theorem locatorCorrect_of_not_onChain (hchain : ¬ OnChain (chainParent st m.genesisHash) lowHash highHash) :
    LocatorCorrect m st lowHash highHash limit ↔ ¬ OnChain (chainParent st m.genesisHash) highHash lowHash ∧
      ∃ k, (limit = 0 ∨ k + 1 < limit.toNat) ∧
        score st (locatorPoint m st lowHash highHash k) ≤ score st lowHash := by
  have hpoint : ∀ k, m.isInSelectedParentChainOf (locatorPoint m st lowHash highHash k) lowHash = true ↔
      OnChain (chainParent st m.genesisHash) (locatorPoint m st lowHash highHash k) lowHash :=
    fun k => hcorrect _ _ (locatorPoint_onChain htree hhigh lowHash k).1 hlow
  constructor
  · rintro ⟨result, hnot, ⟨n, hresult⟩, hfails, -⟩
    obtain ⟨error, rfl⟩ := hfails hchain
    rcases locator_outcome htree hhigh hlow limit with ⟨e, hbefore, hends, hreturns⟩ | ⟨-, hruns⟩
    · have heq := (hresult (max n (max (score st highHash) e + 1)) (by omega)).symm.trans (hreturns _ (by omega))
      unfold locatorResult at heq
      split_ifs at heq with hok
      obtain ⟨hlimit, hnotIn⟩ := not_or.mp hok
      refine ⟨fun hhl => ?_, e, open_of_continues hbefore hlimit, score_le_of_ends hbefore hends hlimit⟩
      -- The walk ends in its first round, at a block of the chain of `lowHash`.
      have hscore := OnChain.rank_le htree.rank hhl
      have he : e = 0 := by
        by_contra he
        have := (hbefore 0 (by omega)).2
        simp only [locatorPoint] at this
        omega
      subst he
      exact hnotIn ((hpoint 0).mpr hhl)
    · have hrun := hruns (max n (score st highHash + 1)) (by omega)
      rw [hresult _ (by omega)] at hrun
      exact absurd hrun hnot
  rintro ⟨hhl, k, hlimit, hscore⟩
  rcases locator_outcome htree hhigh hlow limit with ⟨e, hbefore, hends, hreturns⟩ | ⟨hall, -⟩
  · have hek : e ≤ k := by
      by_contra hek
      have := (hbefore k (by omega)).2
      omega
    have hlimit' : limit.toNat ≠ e + 1 := by
      rcases hlimit with rfl | hlimit
      · simp
      · omega
    have hnotIn : ¬ OnChain (chainParent st m.genesisHash) (locatorPoint m st lowHash highHash e)
        lowHash := by
      intro hin
      cases e with
      | zero => exact hhl hin
      | succ e =>
        have hcont := hbefore e (by omega)
        have hknown := (locatorPoint_onChain htree hhigh lowHash e).1
        have hlowest := (locatorPoint_succ htree hknown hcont.2.le (lt_succ_self _)).2
        have heq := hin.eq_of_rank_le htree.rank ((le_nextBlueScore _ _ _).trans hlowest.2.1)
        have honChain := locatorPoint_antitone htree hhigh lowHash (zero_le (e + 1))
        rw [heq] at honChain
        exact hchain honChain
    refine ⟨.error .notInTheSameSelectedParentChain, by simp,
      ⟨max (score st highHash) e + 1, fun rounds hr => ?_⟩, fun _ => ⟨_, rfl⟩, fun h => absurd h hchain⟩
    rw [hreturns rounds (by omega)]
    unfold locatorResult
    rw [if_neg (not_or.mpr ⟨hlimit', fun h => hnotIn ((hpoint e).mp h)⟩)]
  · have := (hall k).2
    omega

end

/-- The condition is exact, for every pair of known blocks and every limit. -/
theorem locatorCorrect_iff (htree : SelectedTree m.genesisHash st) (hcorrect : m.ChainsCorrect st)
    (lowHash highHash : DomainHash) (hlow : Known st lowHash) (hhigh : Known st highHash) (limit : UInt32) :
    LocatorCorrect m st lowHash highHash limit ↔ LocatorCondition m st lowHash highHash limit := by
  have hlh := hcorrect lowHash highHash hlow hhigh
  have hhl := hcorrect highHash lowHash hhigh hlow
  unfold LocatorCondition
  by_cases hchain : OnChain (chainParent st m.genesisHash) lowHash highHash
  · rw [locatorCorrect_of_onChain htree hhigh hlow hcorrect hchain]
    simp only [hlh.mpr hchain, true_and, Bool.true_eq_false, false_and, or_false]
    refine forall_congr' fun k => forall_congr' fun hk => ?_
    exact locatorPoint_succ_ne_iff htree hhigh hk (low_onChain_point htree hhigh hchain
      fun j hj => hk.earlier htree hhigh hj.le)
  rw [locatorCorrect_of_not_onChain htree hhigh hlow hcorrect hchain]
  have hfalse : m.isInSelectedParentChainOf lowHash highHash = false := by
    simpa using hlh.not.mpr hchain
  simp only [hfalse, Bool.false_eq_true, false_and, true_and, false_or]
  rw [← hhl, Bool.not_eq_true]

/-! ## A small DAG -/

def forked : List Block :=
  [⟨1, [], 0x1d00ffff⟩, ⟨2, [1], 0x1d00ffff⟩, ⟨3, [1], 0x1d00ffff⟩, ⟨4, [2, 3], 0x1d00ffff⟩, ⟨5, [2], 0x1d00ffff⟩]

def forkedManager : Ghostdag.Manager := ⟨10, 1, ancestorIn forked 5⟩

def forkedStores : Stores := (addBlocks forkedManager 5 forked Stores.empty).toOption.getD Stores.empty

theorem forked_selectedTree : SelectedTree 1 forkedStores := by
  have hcheck : checkDAG forkedManager forked = true := by decide +kernel
  exact selectedTree_of_recorded (isDAG_of_checkDAG hcheck).1
    (recorded_of_checkDAG hcheck (by decide) (by decide)) (by decide)

theorem forked_known {h : DomainHash} (hh : (forkedStores.data.lookup h).isSome = true) : Known forkedStores h :=
  Option.isSome_iff_exists.mp hh

theorem locatorCorrect_iff_forked :
    SelectedTree 1 forkedStores ∧ (managerOf 1 forkedStores).ChainsCorrect forkedStores ∧
      LocatorCorrect (managerOf 1 forkedStores) forkedStores 1 3 0 := by
  have hcorrect : (managerOf 1 forkedStores).ChainsCorrect forkedStores :=
    chainsCorrect_managerOf forked_selectedTree
  have h3 : Known forkedStores 3 := forked_known (by decide +kernel)
  refine ⟨forked_selectedTree, hcorrect, (locatorCorrect_iff (managerOf 1 forkedStores) forkedStores
    forked_selectedTree hcorrect 1 3 (forked_known (by decide +kernel)) h3 0).mpr
    (.inl ⟨by decide +kernel, fun k hk p hp => ?_⟩)⟩
  cases k with
  | zero =>
    have hparent : chainParent forkedStores 1 3 = some 1 := by decide +kernel
    cases hparent.symm.trans hp
    decide +kernel
  | succ k =>
    -- The first step reaches genesis.
    have hle := score_locatorPoint_le (m := managerOf 1 forkedStores) forked_selectedTree h3 1
      (show 1 ≤ k + 1 by omega)
    have hone : score forkedStores (locatorPoint (managerOf 1 forkedStores) forkedStores 1 3 1) = 0 := by
      decide +kernel
    have hlt := hk.2
    omega

/-- Below block 4 the blue score falls by 2: block 4 is listed twice, and for block 5 the walk never ends. -/
theorem createBlockLocator_repeats_and_runs :
    SelectedTree 1 forkedStores ∧ (managerOf 1 forkedStores).ChainsCorrect forkedStores ∧
      createBlockLocator (managerOf 1 forkedStores) forkedStores 10 1 4 0 = .ok [4, 4, 3, 1] ∧ (∀ rounds, 3 < rounds →
        createBlockLocator (managerOf 1 forkedStores) forkedStores rounds 5 4 0 = .error .running) ∧
      createBlockLocator (managerOf 1 forkedStores) forkedStores 10 4 3 0 = .ok [3] := by
  refine ⟨forked_selectedTree, chainsCorrect_managerOf forked_selectedTree, by decide +kernel,
    fun rounds hrounds => ?_, by decide +kernel⟩
  have hstay : ∀ blueScore, blueScore = 2 ∨ blueScore = 3 →
      (lowestChainBlockAboveOrEqualToBlueScore (managerOf 1 forkedStores) forkedStores 4 4
        blueScore).toOption.getD 4 = 4 := by
    rintro blueScore (rfl | rfl) <;> decide +kernel
  have hscore : score forkedStores 4 = 3 ∧ score forkedStores 5 = 2 := by decide +kernel
  have hpoint : ∀ k, locatorPoint (managerOf 1 forkedStores) forkedStores 5 4 k = 4 := by
    intro k
    induction k with
    | zero => rfl
    | succ k ih =>
      rw [locatorPoint]
      simp only [ih, hscore.1, hscore.2]
      refine hstay _ ?_
      unfold nextBlueScore
      split_ifs <;> omega
  refine createBlockLocator_running forked_selectedTree (forked_known (by decide +kernel))
    (forked_known (by decide +kernel)) (fun k => ⟨.inl rfl, ?_⟩) (by omega)
  rw [hpoint k]
  omega

end Kaspad.Sync
