import Mathlib.Data.List.AList
import Mathlib.Data.List.Sort

/-! # Finite maps with an iteration order

A built-in map of the source language, as an association list without repeated keys. The order of
the entries is the (unspecified) order in which a `range` loop visits them, so a statement about
every `GoMap` is a statement about every iteration order. Two maps with the same lookups are the
same map: `Same` is that equality.
-/

namespace Lib
open List AList

/-- A finite map from `K` to `V`, with the order in which a loop over it visits the entries. -/
abbrev GoMap (K V : Type) := AList (fun _ : K => V)

namespace GoMap
variable {K V : Type} [DecidableEq K]

/-- Equality of maps: the same value, or the same absence, under every key. -/
def Same (m m' : GoMap K V) : Prop := ∀ k, m.lookup k = m'.lookup k

variable (m : GoMap K V)

theorem Same.refl : Same m m := fun _ => rfl

variable {m' : GoMap K V}

theorem Same.trans {m m'' : GoMap K V} (h : Same m m') (h' : Same m' m'') : Same m m'' :=
  fun k => (h k).trans (h' k)

variable (k : K)

@[simp] theorem lookup_set (a : K) (v : V) : (m.insert k v).lookup a = if a = k then some v else m.lookup a := by
  by_cases h : a = k
  · subst h; simp
  · simp [h, lookup_insert_ne h]

@[simp] theorem lookup_delete (a : K) : (m.erase k).lookup a = if a = k then none else m.lookup a := by
  by_cases h : a = k
  · subst h; simp
  · simp [h, lookup_erase_ne h]

variable {v : V}

theorem of_lookup_set {m : GoMap K V} {k a : K} {x : V} (h : (m.insert k v).lookup a = some x) :
    a = k ∧ x = v ∨ m.lookup a = some x := by
  rw [lookup_set] at h
  split_ifs at h with ha
  · exact .inl ⟨ha, (Option.some.inj h).symm⟩
  · exact .inr h

theorem of_lookup_delete {m : GoMap K V} {k a : K} {x : V} (h : (m.erase k).lookup a = some x) :
    a ≠ k ∧ m.lookup a = some x := by
  rw [lookup_delete] at h
  split_ifs at h with ha
  exact ⟨ha, h⟩

theorem mem_entries_iff (e : (_ : K) × V) : e ∈ m.entries ↔ m.lookup e.1 = some e.2 := by
  obtain ⟨k, v⟩ := e
  rw [← Option.mem_def]
  exact mem_lookup_iff.symm

def size (m : GoMap K V) : ℕ := m.entries.length

theorem size_erase {m : GoMap K V} {k : K} (h : m.lookup k = some v) : size (m.erase k) + 1 = size m := by
  have hk : k ∈ m.entries.keys := lookup_isSome.mp (by simp [h])
  obtain ⟨b, l₁, l₂, -, hl, hl'⟩ := exists_of_kerase hk
  have herase : (m.erase k).entries = m.entries.kerase k := rfl
  unfold size
  rw [herase, hl', hl]
  simp only [length_append, length_cons]
  omega

theorem size_erase_le : size (m.erase k) ≤ size m :=
  (kerase_sublist k m.entries).length_le

/-! ## Writing the records of a list -/

section
variable {α : Type} {key : α → K} {val : α → V} {records : List α} {m : GoMap K V} {k : K}

theorem lookup_deletes (key : α → K) (records : List α) (m : GoMap K V) (k : K) :
    (records.foldl (fun m record => m.erase (key record)) m).lookup k =
      if k ∈ records.map key then none else m.lookup k := by
  induction records generalizing m with
  | nil => simp
  | cons record records ih =>
    rw [foldl_cons, ih, lookup_delete, map_cons]
    by_cases hk : k = key record
    · simp [hk]
    · rw [if_neg hk, if_congr (mem_cons.trans (or_iff_right hk)) rfl rfl]

theorem lookup_puts_of_notMem (h : k ∉ records.map key) :
    (records.foldl (fun m record => m.insert (key record) (val record)) m).lookup k = m.lookup k := by
  induction records generalizing m with
  | nil => rfl
  | cons record records ih =>
    obtain ⟨hne, hrest⟩ := not_or.mp fun hor => h (mem_cons.mpr hor)
    rw [foldl_cons, ih hrest, lookup_set, if_neg hne]

theorem lookup_puts_of_mem {v : V} (hsame : ∀ record ∈ records, key record = k → val record = v)
    (h : k ∈ records.map key) :
    (records.foldl (fun m record => m.insert (key record) (val record)) m).lookup k = some v := by
  induction records generalizing m with
  | nil => cases h
  | cons record records ih =>
    have hrest : ∀ record ∈ records, key record = k → val record = v := fun r hr =>
      hsame r (mem_cons_of_mem _ hr)
    rw [foldl_cons]
    by_cases hmem : k ∈ records.map key
    · exact ih hrest hmem
    have hk := (mem_cons.mp h).resolve_right hmem
    rw [lookup_puts_of_notMem hmem, lookup_set, if_pos hk, hsame record (by simp) hk.symm]

end

/-! ## Loops over a map -/

def rangeBy (order : K → ℕ) (m : GoMap K V) : List ((_ : K) × V) :=
  m.entries.insertionSort fun a b => order a.1 ≤ order b.1

def pairsBy (order : K → ℕ) (m : GoMap K V) : List (K × V) := (rangeBy order m).map fun e => (e.1, e.2)

theorem mem_pairsBy {order : K → ℕ} {m : GoMap K V} {k : K} : (k, v) ∈ pairsBy order m ↔ m.lookup k = some v := by
  constructor
  · intro h
    obtain ⟨e, he, heq⟩ := mem_map.mp h
    cases heq
    exact (mem_entries_iff m e).mp ((perm_insertionSort _ _).subset he)
  · intro h
    refine mem_map.mpr ⟨⟨k, v⟩, ?_, rfl⟩
    exact (perm_insertionSort _ _).mem_iff.mpr ((mem_entries_iff m ⟨k, v⟩).mpr h)

omit [DecidableEq K] in
theorem length_pairsBy (order : K → ℕ) (m : GoMap K V) : (pairsBy order m).length = size m := by
  rw [pairsBy, length_map, rangeBy, length_insertionSort]
  rfl

omit [DecidableEq K] in
theorem nodup_keys_pairsBy (order : K → ℕ) (m : GoMap K V) : ((pairsBy order m).map Prod.fst).Nodup := by
  have hperm : ((pairsBy order m).map Prod.fst).Perm m.keys := by
    rw [pairsBy, map_map]
    exact (perm_insertionSort _ _).map _
  exact hperm.nodup_iff.mpr m.nodupKeys

/-- `for k, v := range m { if p(k, v) { acc[k] = v } }`. -/
def addWhere (p : K → V → Bool) (m acc : GoMap K V) : GoMap K V :=
  m.entries.foldl (fun a e => if p e.1 e.2 then a.insert e.1 e.2 else a) acc

/-- `for k, v := range m { acc[k] = f(v) }`. -/
def addMapped {W : Type} (f : V → W) (m : GoMap K V) (acc : GoMap K W) : GoMap K W :=
  m.entries.foldl (fun a e => a.insert e.1 (f e.2)) acc

/-- `for k := range m { delete(acc, k) }`. -/
def eraseKeys (m acc : GoMap K V) : GoMap K V :=
  m.entries.foldl (fun a e => a.erase e.1) acc

/-- The first key of the iteration whose entry satisfies `p`. -/
def findKey (p : K → V → Bool) (m : GoMap K V) : Option K :=
  (m.entries.find? (fun e => p e.1 e.2)).map Sigma.fst

variable (p : K → V → Bool)

theorem foldl_addMappedWhere {W : Type} (f : V → W) (l : List ((_ : K) × V)) (hl : l.NodupKeys)
    (acc : GoMap K W) (a : K) :
    (l.foldl (fun a e => if p e.1 e.2 then a.insert e.1 (f e.2) else a) acc).lookup a = match l.dlookup a with
      | some v => if p a v then some (f v) else acc.lookup a
      | none => acc.lookup a := by
  induction l generalizing acc with
  | nil => simp
  | cons e l ih =>
    obtain ⟨k, v⟩ := e
    obtain ⟨hk, hl'⟩ := nodupKeys_cons.mp hl
    rw [foldl_cons, ih hl']
    by_cases hak : a = k
    · subst hak
      have hnone := dlookup_eq_none.mpr hk
      rw [dlookup_cons_eq, hnone]
      by_cases hp : p a v <;> simp [hp]
    have hcons : List.dlookup a (⟨k, v⟩ :: l) = l.dlookup a := dlookup_cons_ne _ _ hak
    rw [hcons]
    have hacc : AList.lookup a (if p k v then AList.insert k (f v) acc else acc) = acc.lookup a := by
      by_cases hp : p k v <;> simp [hp, hak]
    rw [hacc]

theorem lookup_addWhere (m acc : GoMap K V) (a : K) : (addWhere p m acc).lookup a = match m.lookup a with
      | some v => if p a v then some v else acc.lookup a
      | none => acc.lookup a :=
  foldl_addMappedWhere p id m.entries m.nodupKeys acc a

theorem lookup_addMapped {W : Type} (f : V → W) (m : GoMap K V) (acc : GoMap K W) (a : K) :
    (addMapped f m acc).lookup a = ((m.lookup a).map f).or (acc.lookup a) := by
  refine (foldl_addMappedWhere (fun _ _ => true) f m.entries m.nodupKeys acc a).trans ?_
  change (match m.lookup a with | some v => _ | none => _) = _
  cases m.lookup a <;> rfl

theorem lookup_foldl_erase {W : Type} (m : GoMap K W) (acc : GoMap K V) (a : K) :
    (m.entries.foldl (fun a e => a.erase e.1) acc).lookup a = if (m.lookup a).isSome then none else acc.lookup a := by
  rw [lookup_deletes]
  by_cases h : a ∈ m
  · have hk : a ∈ m.entries.map Sigma.fst := h
    rw [if_pos hk, if_pos (lookup_isSome.mpr h)]
  have hk : a ∉ m.entries.map Sigma.fst := h
  rw [if_neg hk, if_neg (fun h' => h (lookup_isSome.mp h'))]

theorem lookup_eraseKeys (acc : GoMap K V) (a : K) :
    (eraseKeys m acc).lookup a = if (m.lookup a).isSome then none else acc.lookup a :=
  lookup_foldl_erase m acc a

/-- A loop that writes the entries of a map the other way round, when no value occurs twice. -/
theorem foldl_insert_swap {W : Type} [DecidableEq W] (l : List ((_ : K) × W))
    (hinj : ∀ e ∈ l, ∀ e' ∈ l, e.2 = e'.2 → e.1 = e'.1) (acc : GoMap W K) (w : W) (k : K) :
    (l.foldl (fun a e => a.insert e.2 e.1) acc).lookup w = some k ↔
      ⟨k, w⟩ ∈ l ∨ (∀ e ∈ l, e.2 ≠ w) ∧ acc.lookup w = some k := by
  induction l generalizing acc with
  | nil => simp
  | cons e l ih =>
    obtain ⟨k₀, w₀⟩ := e
    have hinj' : ∀ e ∈ l, ∀ e' ∈ l, e.2 = e'.2 → e.1 = e'.1 := fun e he e' he' =>
      hinj e (by simp [he]) e' (by simp [he'])
    rw [foldl_cons, ih hinj', lookup_set]
    by_cases hw : w = w₀
    · subst hw
      -- A later entry with the same value has the same key.
      have hsame : ∀ e ∈ l, e.2 = w → e = ⟨k₀, w⟩ := by
        rintro ⟨k', w'⟩ he rfl
        rw [show k' = k₀ from hinj ⟨k', w'⟩ (by simp [he]) ⟨k₀, w'⟩ (by simp) rfl]
      constructor
      · rintro (hk | ⟨-, hk⟩)
        · exact .inl (mem_cons_of_mem _ hk)
        obtain rfl : k₀ = k := by simpa using hk
        exact .inl (by simp)
      rintro (hk | ⟨hnone, -⟩)
      · obtain rfl : k = k₀ := by
          rcases mem_cons.mp hk with hk | hk
          · exact congrArg Sigma.fst hk
          · exact congrArg Sigma.fst (hsame _ hk rfl)
        by_cases hrest : (⟨k, w⟩ : (_ : K) × W) ∈ l
        · exact .inl hrest
        · exact .inr ⟨fun e he heq => hrest (hsame e he heq ▸ he), by simp⟩
      · exact absurd rfl (hnone ⟨k₀, w⟩ (by simp))
    · simp [hw, Ne.symm hw]

theorem findKey_eq_none_iff (m : GoMap K V) : findKey p m = none ↔ ∀ k v, m.lookup k = some v → p k v = false := by
  unfold findKey
  rw [Option.map_eq_none_iff, List.find?_eq_none]
  constructor
  · intro h k v hkv
    have := h ⟨k, v⟩ ((mem_entries_iff m ⟨k, v⟩).mpr hkv)
    simpa using this
  intro h e he
  have := h e.1 e.2 ((mem_entries_iff m e).mp he)
  simp [this]

end GoMap
end Lib
