import Kaspad.Ghostdag.Past

/-! # The anticone from given tips

`AnticoneFromBlocks` of `domain/consensus/processes/dagtraversalmanager/anticone.go`: a breadth-first
search down from the tips that stops at the ancestors of the block. No ancestor of the block stands on
a path from a tip down to a block of its anticone, so that the search misses none.
-/

namespace Kaspad.Traversal
open Lib Ghostdag List

inductive AnticoneError
  | ghostdag (error : GhostdagError)
  /-- "Passed max allowed traversal (%d > %d)" -/
  | reachedMaxTraversalAllowed (traversalCounter maxTraversalAllowed : ℕ)
  | running
  deriving DecidableEq

section
variable (m : Ghostdag.Manager) (st : Stores) (blockHash : DomainHash) (maxTraversalAllowed : ℕ)

/-- The loop, at a queue, the visited blocks, the 64-bit counter and the anticone so far. -/
def anticoneLoop : ℕ → List DomainHash → List DomainHash → ℕ → List DomainHash →
    Except AnticoneError (List DomainHash)
  | _, [], _, _, anticone => pure anticone
  | 0, _ :: _, _, _, _ => throw .running
  | n + 1, current :: queue, visited, traversalCounter, anticone =>
    if current ∈ visited then anticoneLoop n queue visited traversalCounter anticone
    else if m.isAncestorOf current blockHash then
      anticoneLoop n queue (visited ++ [current]) traversalCounter anticone
    else
      let traversalCounter := (traversalCounter + 1) % 2 ^ 64
      if maxTraversalAllowed > 0 ∧ traversalCounter > maxTraversalAllowed then
        throw (.reachedMaxTraversalAllowed traversalCounter maxTraversalAllowed)
      else do
        let currentParents ← (lookupOrFail st.parents current).mapError .ghostdag
        anticoneLoop n (queue ++ currentParents) (visited ++ [current]) traversalCounter
          (if !m.isAncestorOf blockHash current then anticone ++ [current] else anticone)

def anticoneFromBlocks (rounds : ℕ) (tips : List DomainHash) : Except AnticoneError (List DomainHash) :=
  anticoneLoop m st blockHash maxTraversalAllowed rounds tips [] 0 []

end

/-! ## The search -/

/-- A tip, or in the past of one. -/
def FromTips (dag : List Block) (tips : List DomainHash) (x : DomainHash) : Prop := ∃ t ∈ tips, Ancestor dag x t

/-- What was found comes from the tips, and of every visited block that is no ancestor of `b` the parents were
found. -/
structure Searching (dag : List Block) (tips : List DomainHash) (b : DomainHash) (visited queue : List DomainHash) :
    Prop where
  nodup : visited.Nodup
  sound : ∀ x ∈ visited ++ queue, FromTips dag tips x
  start : ∀ t ∈ tips, t ∈ visited ++ queue
  closed : ∀ x ∈ visited, ¬ Ancestor dag x b → ∀ p, IsParent dag p x → p ∈ visited ++ queue

section
variable {m : Ghostdag.Manager} {st : Stores} {dag : List Block} {tips visited queue : List DomainHash}
  {b current : DomainHash} (h : Searching dag tips b visited (current :: queue))

include h

theorem Searching.skip (hcurrent : current ∈ visited) : Searching dag tips b visited queue := by
  obtain ⟨hnodup, hsound, hstart, hclosed⟩ := h
  have hmem : ∀ x, x ∈ visited ++ current :: queue ↔ x ∈ visited ++ queue := by grind
  simp only [hmem] at hsound hstart hclosed
  exact ⟨hnodup, hsound, hstart, hclosed⟩

theorem Searching.visit (hcurrent : current ∉ visited) (parents : List DomainHash)
    (hparents : ∀ p ∈ parents, IsParent dag p current)
    (hall : ¬ Ancestor dag current b → ∀ p, IsParent dag p current → p ∈ parents) :
    Searching dag tips b (visited ++ [current]) (queue ++ parents) := by
  obtain ⟨hnodup, hsound, hstart, hclosed⟩ := h
  obtain ⟨t, ht, hpath⟩ := hsound current (by simp)
  have hnew : ∀ p ∈ parents, FromTips dag tips p := fun p hp => ⟨t, ht, .head (hparents p hp) hpath⟩
  exact ⟨by grind, by grind, by grind, by grind⟩

omit h

theorem Searching.complete (h : Searching dag tips b visited []) {x : DomainHash} (hx : FromTips dag tips x)
    (hnot : ¬ Ancestor dag x b) : x ∈ visited := by
  obtain ⟨t, ht, hpath⟩ := hx
  -- Down the path from the tip: no block on it is an ancestor of `b`.
  induction hpath using Relation.ReflTransGen.head_induction_on with
  | refl => simpa using h.start t ht
  | head hparent _ ih =>
    have hnot' := fun hanc => hnot (.head hparent hanc)
    simpa using h.closed _ (ih hnot') hnot' _ hparent

variable (hdag : Topological dag) (hknows : ∀ b ∈ dag, st.parents.lookup b.hash = some b.parents)
  (hancestors : m.AncestorsCorrect dag) (htips : ∀ t ∈ tips, t ∈ hashes dag) (hb : b ∈ hashes dag)

/-- The blocks of the visited ones that are counted, and that go to the anticone. -/
def counted (m : Ghostdag.Manager) (b : DomainHash) (visited : List DomainHash) : List DomainHash :=
  visited.filter fun x => !m.isAncestorOf x b

def inAnticone (m : Ghostdag.Manager) (b : DomainHash) (visited : List DomainHash) : List DomainHash :=
  (counted m b visited).filter fun x => !m.isAncestorOf b x

/-- More blocks than the limit that come from the tips and are no ancestors of `b`. -/
def Exceeds (dag : List Block) (tips : List DomainHash) (b : DomainHash) (limit : ℕ) : Prop :=
  ∃ found : List DomainHash, found.Nodup ∧ limit < found.length ∧
    ∀ x ∈ found, FromTips dag tips x ∧ ¬ Ancestor dag x b

include hdag hancestors htips hb in
theorem Searching.counted_spec (h : Searching dag tips b visited queue) :
    (counted m b visited).Nodup ∧ ∀ x ∈ counted m b visited, FromTips dag tips x ∧ ¬ Ancestor dag x b := by
  refine ⟨h.nodup.filter _, fun x hx => ?_⟩
  obtain ⟨hx, hnot⟩ := mem_filter.mp hx
  obtain ⟨t, ht, hpath⟩ := h.sound x (mem_append_left _ hx)
  refine ⟨⟨t, ht, hpath⟩, fun hanc => ?_⟩
  have htrue := (hancestors x (hdag.ancestor_mem hpath (htips t ht)) b hb).mpr hanc
  simp [htrue] at hnot

include hdag hknows hancestors htips hb in
theorem anticoneLoop_spec {counter : ℕ} (h : Searching dag tips b visited queue)
    (hcounter : counter ≤ (counted m b visited).length) :
    ∃ final needed, Searching dag tips b final [] ∧ ∀ rounds ≥ needed, ∀ limit,
      anticoneLoop m st b limit rounds queue visited counter (inAnticone m b visited) = .ok (inAnticone m b final) ∨
      0 < limit ∧ Exceeds dag tips b limit ∧ ∃ passed,
        anticoneLoop m st b limit rounds queue visited counter (inAnticone m b visited) =
          .error (.reachedMaxTraversalAllowed passed limit) := by
  -- A round shortens the queue or adds to the visited blocks.
  induction hk : (hashes dag).length - visited.length using Nat.strong_induction_on generalizing visited queue counter with
  | _ k ih =>
  induction queue with
  | nil => exact ⟨visited, 0, h, fun rounds _ limit => .inl (by cases rounds <;> rfl)⟩
  | cons current queue ihq =>
    by_cases hvisited : current ∈ visited
    · obtain ⟨final, needed, hfinal, hruns⟩ := ihq (h.skip hvisited)
      refine ⟨final, needed + 1, hfinal, ?_⟩
      rintro (_ | n) hn limit
      · omega
      simpa only [anticoneLoop, if_pos hvisited] using hruns n (by omega) limit
    obtain ⟨t, ht, hpath⟩ := h.sound current (by simp)
    have hcurrent := hdag.ancestor_mem hpath (htips t ht)
    have hmore : (hashes dag).length - (visited ++ [current]).length < k := by
      have hle := (subperm_of_subset (nodup_append.mpr ⟨h.nodup, nodup_singleton current, by grind⟩)
        fun x hx => (?_ : x ∈ hashes dag)).length_le
      · simp only [length_append, length_singleton] at hle ⊢
        omega
      obtain ⟨t, ht, hpath⟩ := h.sound x (by simp at hx ⊢; tauto)
      exact hdag.ancestor_mem hpath (htips t ht)
    have hiff := hancestors current hcurrent b hb
    by_cases hanc : m.isAncestorOf current b = true
    · have hvisit := h.visit hvisited [] (by simp) fun hnot => absurd (hiff.mp hanc) hnot
      rw [append_nil] at hvisit
      have hsame : counted m b (visited ++ [current]) = counted m b visited := by simp [counted, hanc]
      obtain ⟨final, needed, hfinal, hruns⟩ := ih _ hmore hvisit (hsame ▸ hcounter) rfl
      refine ⟨final, needed + 1, hfinal, ?_⟩
      rintro (_ | n) hn limit
      · omega
      simpa only [anticoneLoop, if_neg hvisited, if_pos hanc, inAnticone, hsame] using
        hruns n (by omega) limit
    obtain ⟨block, hblock, rfl⟩ := mem_map.mp hcurrent
    have hedge := fun p => hdag.isParent_iff (a := p) hblock
    have hvisit := h.visit hvisited block.parents (fun p hp => (hedge p).mpr hp) fun _ p hp => (hedge p).mp hp
    have hnext : counted m b (visited ++ [block.hash]) = counted m b visited ++ [block.hash] := by
      simp [counted, hanc]
    have hcounter' : (counter + 1) % 2 ^ 64 ≤ (counted m b (visited ++ [block.hash])).length := by
      rw [hnext, length_append, length_singleton]
      exact (Nat.mod_le _ _).trans (by omega)
    obtain ⟨final, needed, hfinal, hruns⟩ := ih _ hmore hvisit hcounter' rfl
    refine ⟨final, needed + 1, hfinal, ?_⟩
    rintro (_ | n) hn limit
    · omega
    simp only [anticoneLoop, if_neg hvisited, if_neg hanc, lookupOrFail_eq (hknows block hblock)]
    by_cases hlimit : limit > 0 ∧ (counter + 1) % 2 ^ 64 > limit
    · rw [if_pos hlimit]
      obtain ⟨hnodup, hfound⟩ := hvisit.counted_spec hdag hancestors htips hb
      exact .inr ⟨hlimit.1, ⟨_, hnodup, by omega, hfound⟩, _, rfl⟩
    rw [if_neg hlimit]
    have hanticone : (if (!m.isAncestorOf b block.hash) = true then inAnticone m b visited ++ [block.hash]
        else inAnticone m b visited) = inAnticone m b (visited ++ [block.hash]) := by
      unfold inAnticone
      rw [hnext]
      split_ifs with hbelow <;> simp [hbelow]
    rw [hanticone]
    exact hruns n (by omega) limit

end

/-- The walk ends, and gives the anticone among what the tips reach or the error of an exceeded limit. -/
theorem anticoneFromBlocks_spec {m : Ghostdag.Manager} {st : Stores} {dag : List Block} (hdag : Topological dag)
    (hknows : ∀ b ∈ dag, st.parents.lookup b.hash = some b.parents) (hancestors : m.AncestorsCorrect dag)
    {tips : List DomainHash} (htips : ∀ t ∈ tips, t ∈ hashes dag) {b : DomainHash} (hb : b ∈ hashes dag) :
    ∃ anticone needed, anticone.Nodup ∧
      (∀ x, x ∈ anticone ↔ x ∈ Lib.Dag.anticone (Ancestor dag) b ∧ FromTips dag tips x) ∧
      ∀ rounds ≥ needed, anticoneFromBlocks m st b 0 rounds tips = .ok anticone ∧
        ∀ limit > 0, anticoneFromBlocks m st b limit rounds tips = .ok anticone ∨ Exceeds dag tips b limit ∧ ∃ passed,
            anticoneFromBlocks m st b limit rounds tips = .error (.reachedMaxTraversalAllowed passed limit) := by
  have hstart : Searching dag tips b [] tips :=
    ⟨.nil, fun x hx => ⟨x, by simpa using hx, .refl⟩, by simp, by simp⟩
  obtain ⟨final, needed, hfinal, hruns⟩ := anticoneLoop_spec hdag hknows hancestors htips hb hstart (Nat.zero_le _)
  have hiff : ∀ x, FromTips dag tips x →
      (m.isAncestorOf x b = true ↔ Ancestor dag x b) ∧ (m.isAncestorOf b x = true ↔ Ancestor dag b x) := by
    intro x hx
    obtain ⟨t, ht, hpath⟩ := hx
    have hx := hdag.ancestor_mem hpath (htips t ht)
    exact ⟨hancestors x hx b hb, hancestors b hb x hx⟩
  refine ⟨inAnticone m b final, needed, (hfinal.nodup.filter _).filter _, fun x => ?_, fun rounds hrounds => ⟨?_, ?_⟩⟩
  · constructor
    · intro hx
      obtain ⟨hcounted, hbelow⟩ := mem_filter.mp hx
      obtain ⟨hfrom, hnot⟩ := (hfinal.counted_spec hdag hancestors htips hb).2 x hcounted
      exact ⟨⟨hnot, fun hanc => by simp [(hiff x hfrom).2.mpr hanc] at hbelow⟩, hfrom⟩
    intro hx
    have hdecided := hiff x hx.2
    have hx' := hfinal.complete hx.2 hx.1.1
    simp only [inAnticone, counted, mem_filter, Bool.not_eq_true', ← Bool.not_eq_true, hdecided]
    exact ⟨⟨hx', hx.1.1⟩, hx.1.2⟩
  · exact (hruns rounds hrounds 0).resolve_right (by simp)
  · intro limit hlimit
    exact (hruns rounds hrounds limit).imp_right And.right

theorem anticoneFromBlocks_spec_diamond : ∃ anticone needed, 3 ∈ anticone ∧
    ∀ rounds ≥ needed, anticoneFromBlocks diamondManager diamondStores 2 0 rounds [4] = .ok anticone := by
  obtain ⟨hdag, hcorrect⟩ := isDAG_of_checkDAG diamond_checkDAG
  obtain ⟨anticone, needed, -, hmem, hruns⟩ := anticoneFromBlocks_spec (b := 2) hdag.toTopological
    diamond_recorded.knows.parents hcorrect (show ∀ t ∈ [4], t ∈ hashes diamond by decide) (by decide)
  refine ⟨anticone, needed, (hmem 3).mpr ⟨⟨?_, ?_⟩, 4, by decide, ?_⟩, fun rounds hrounds => (hruns rounds hrounds).1⟩
  all_goals
    rw [← hcorrect _ (by decide) _ (by decide)]
    decide

end Kaspad.Traversal
