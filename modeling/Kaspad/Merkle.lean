import Mathlib.Data.List.Basic
import Mathlib.Tactic.Ring

/-! # Merkle roots

`merkle.go` of `domain/consensus/utils/merkle`: the tree over a list of hashes, laid out level after level in one
array, and the recursive tree that the array holds.
-/

namespace Kaspad.Merkle

structure Hasher (Hash : Type) where
  hashMerkleBranches : Hash → Hash → Hash
  zeroHash : Hash

variable {Hash : Type} (H : Hasher Hash)

/-- `math.Log2` of a float is exact enough here, for no slice has `2 ^ 48` elements. -/
def nextPowerOfTwo (n : ℕ) : ℕ := if n &&& (n - 1) = 0 then n else 2 ^ (n.log2 + 1)

/-- The parent of the nodes at `i` and `i + 1`, or none for an index out of range. -/
def newHash (merkles : List (Option Hash)) (i : ℕ) : Option (Option Hash) := do
  match ← merkles[i]? with
  | none => some none
  | some left => do
    let right ← merkles[i + 1]?
    some (some (H.hashMerkleBranches left (right.getD H.zeroHash)))

/-- The loop of `merkleRoot`. The result is none for an index out of range and for a loop that goes on. -/
def merkleLoop : ℕ → ℕ → ℕ → List (Option Hash) → Option (List (Option Hash))
  | rounds, i, offset, merkles =>
    if i < merkles.length - 1 then
      match rounds with
      | 0 => none
      | rounds + 1 => do
        let hash ← newHash H merkles i
        if offset < merkles.length then merkleLoop rounds (i + 2) (offset + 1) (merkles.set offset hash) else none
    else some merkles

def merkleRoot (hashes : List Hash) : Option (Option Hash) := do
  let nextPoT := nextPowerOfTwo hashes.length
  let arraySize := nextPoT * 2 - 1
  if arraySize < hashes.length then none
  else do
    let merkles := hashes.map some ++ List.replicate (arraySize - hashes.length) none
    let merkles ← merkleLoop H arraySize 0 nextPoT merkles
    merkles[merkles.length - 1]?

/-! ## The tree -/

def parent (left right : Option Hash) : Option Hash :=
  left.map fun left => H.hashMerkleBranches left (right.getD H.zeroHash)

/-- The root of the tree over the first `2 ^ height` leaves. -/
def tree : ℕ → List (Option Hash) → Option Hash
  | 0, leaves => leaves.head?.join
  | height + 1, leaves => parent H (tree height leaves) (tree height (leaves.drop (2 ^ height)))

/-- The array over `m` leaves after `t` parents have been written. -/
structure Built (leaves : List (Option Hash)) (t : ℕ) (merkles : List (Option Hash)) : Prop where
  length : merkles.length + 1 = 2 * leaves.length
  leaf : ∀ i < leaves.length, merkles[i]? = leaves[i]?
  node : ∀ s < t, merkles[leaves.length + s]? = some (parent H merkles[2 * s]?.join merkles[2 * s + 1]?.join)

variable {H} {leaves merkles : List (Option Hash)} {t : ℕ}

theorem Built.step (h : Built H leaves t merkles) (ht : t + 1 < leaves.length) : Built H leaves (t + 1)
      (merkles.set (leaves.length + t) (parent H merkles[2 * t]?.join merkles[2 * t + 1]?.join)) := by
  have hlen := h.length
  refine ⟨by simpa using hlen, fun i hi => ?_, fun s hs => ?_⟩
  · rw [List.getElem?_set_ne (by omega), h.leaf i hi]
  rw [List.getElem?_set_ne (show leaves.length + t ≠ 2 * s by omega),
    List.getElem?_set_ne (show leaves.length + t ≠ 2 * s + 1 by omega)]
  obtain hlt | rfl : s < t ∨ s = t := by omega
  · rw [List.getElem?_set_ne (by omega), h.node s hlt]
  · rw [List.getElem?_set_self (by omega)]

theorem newHash_eq {i : ℕ} (h : i + 1 < merkles.length) :
    newHash H merkles i = some (parent H merkles[i]?.join merkles[i + 1]?.join) := by
  unfold newHash parent
  rw [List.getElem?_eq_getElem h, List.getElem?_eq_getElem (show i < merkles.length by omega)]
  cases merkles[i] <;> rfl

theorem Built.loop (h : Built H leaves t merkles) (rounds : ℕ) (ht : t < leaves.length)
    (hrounds : leaves.length ≤ t + 1 + rounds) : ∃ merkles',
      merkleLoop H rounds (2 * t) (leaves.length + t) merkles = some merkles' ∧ Built H leaves (leaves.length - 1) merkles' := by
  induction rounds generalizing t merkles with
  | zero =>
    have hlen := h.length
    unfold merkleLoop
    rw [if_neg (by omega)]
    exact ⟨merkles, rfl, (show leaves.length - 1 = t by omega) ▸ h⟩
  | succ rounds ih =>
    have hlen := h.length
    unfold merkleLoop
    by_cases hmore : t + 1 < leaves.length
    · rw [if_pos (by omega)]
      simp only [newHash_eq (show 2 * t + 1 < merkles.length by omega), Option.bind_eq_bind, Option.bind_some]
      rw [if_pos (by omega)]
      exact ih (h.step hmore) hmore (by omega)
    · rw [if_neg (by omega)]
      exact ⟨merkles, rfl, (show leaves.length - 1 = t by omega) ▸ h⟩

theorem Built.getElem?_eq (h : Built H leaves (leaves.length - 1) merkles) {height q : ℕ} (count : ℕ)
    (hcount : count * 2 ^ height = leaves.length) (hq : q < count) :
    merkles[2 * leaves.length - 2 * count + q]? = some (tree H height (leaves.drop (q * 2 ^ height))) := by
  induction height generalizing count q with
  | zero =>
    obtain rfl : count = leaves.length := by simpa using hcount
    rw [Nat.sub_self, Nat.zero_add, h.leaf q hq, tree, pow_zero, Nat.mul_one, List.head?_drop,
      List.getElem?_eq_getElem hq]
    rfl
  | succ height ih =>
    -- The two nodes of the level below stand at twice the distance from the end of the array.
    have hdouble : 2 * count * 2 ^ height = leaves.length := by rw [← hcount, pow_succ]; ring
    have hle := hdouble ▸ Nat.le_mul_of_pos_right _ (Nat.two_pow_pos _)
    have hleft := ih _ hdouble (show 2 * q < 2 * count by omega)
    have hright := ih _ hdouble (show 2 * q + 1 < 2 * count by omega)
    have hnode := h.node (leaves.length - 2 * count + q) (by omega)
    rw [show 2 * (leaves.length - 2 * count + q) = 2 * leaves.length - 2 * (2 * count) + 2 * q by omega, hleft,
      Nat.add_assoc, hright] at hnode
    rw [show 2 * leaves.length - 2 * count + q = leaves.length + (leaves.length - 2 * count + q) by omega, hnode, tree,
      List.drop_drop]
    simp only [Option.join_some, pow_succ]
    ring_nf

theorem nextPowerOfTwo_eq {n : ℕ} (h : n ≠ 0) :
    ∃ height, nextPowerOfTwo n = 2 ^ height ∧ n ≤ 2 ^ height ∧ 2 ^ height < 2 * n := by
  unfold nextPowerOfTwo
  split_ifs with hpower
  · obtain ⟨height, rfl⟩ := (Nat.and_sub_one_eq_zero_iff_isPowerOfTwo h).mp hpower
    exact ⟨height, rfl, le_rfl, by omega⟩
  have hne : n ≠ 2 ^ n.log2 := fun heq => hpower ((Nat.and_sub_one_eq_zero_iff_isPowerOfTwo h).mpr ⟨_, heq⟩)
  have hlow := Nat.log2_self_le h
  exact ⟨n.log2 + 1, rfl, Nat.lt_log2_self.le, by rw [pow_succ]; omega⟩

/-- The linear array holds the tree over the hashes, padded with missing leaves to the next power of two. -/
theorem merkleRoot_eq_tree {hashes : List Hash} (h : hashes ≠ []) :
    ∃ height, nextPowerOfTwo hashes.length = 2 ^ height ∧ hashes.length ≤ 2 ^ height ∧ 2 ^ height < 2 * hashes.length ∧
      merkleRoot H hashes =
        some (tree H height (hashes.map some ++ List.replicate (2 ^ height - hashes.length) none)) := by
  obtain ⟨height, hpower, hle, hlt⟩ := nextPowerOfTwo_eq (mt List.length_eq_zero_iff.mp h)
  refine ⟨height, hpower, hle, hlt, ?_⟩
  generalize hleaves : hashes.map some ++ List.replicate (2 ^ height - hashes.length) none = leaves
  have hlen : leaves.length = 2 ^ height := by simp [← hleaves, hle]
  have hstart : Built H leaves 0 (hashes.map some ++ List.replicate (2 ^ height * 2 - 1 - hashes.length) none) := by
    refine ⟨by simp; omega, fun i hi => ?_, fun s hs => by omega⟩
    simp only [← hleaves, List.getElem?_append, List.length_map, List.getElem?_replicate]
    split_ifs <;> first | rfl | omega
  obtain ⟨merkles, hloop, hbuilt⟩ := hstart.loop (2 ^ height * 2 - 1) (by omega) (by omega)
  have hroot := hbuilt.getElem?_eq 1 ((Nat.one_mul _).trans hlen.symm) Nat.one_pos
  have hlength := hbuilt.length
  simp only [merkleRoot, hpower]
  rw [if_neg (by omega)]
  rw [Nat.mul_zero, Nat.add_zero, hlen] at hloop
  simp only [hloop, Option.bind_eq_bind, Option.bind_some]
  rw [show merkles.length - 1 = 2 * leaves.length - 2 * 1 + 0 by omega, hroot, Nat.zero_mul, List.drop_zero]

theorem merkleRoot_eq_tree_three : let H : Hasher ℕ := ⟨fun left right => 10 * left + right, 0⟩
    merkleRoot H [1, 2, 3] = some (some 150) ∧ ∃ height,
      merkleRoot H [1, 2, 3] = some (tree H height ([1, 2, 3].map some ++ List.replicate (2 ^ height - 3) none)) := by
  intro H
  obtain ⟨height, -, -, -, hroot⟩ := merkleRoot_eq_tree (H := H) (show [1, 2, 3] ≠ [] by decide)
  exact ⟨by decide, height, hroot⟩

end Kaspad.Merkle
