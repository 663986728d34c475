import Kaspad.Lib.GoMap

/-! # Bounded caches

A bounded map in front of a store. When an insertion makes it too large, one entry is taken out:
the one under the key that `victim` chooses, so that a statement about every `victim` holds however
the entry is chosen. `Within` says that the cache never contradicts the store.
-/

namespace Lib

structure Cache (K V : Type) where
  cache : GoMap K V
  capacity : ℕ

namespace Cache
variable {K V : Type} [DecidableEq K]

def get (c : Cache K V) (key : K) : Option V := c.cache.lookup key

def remove (c : Cache K V) (key : K) : Cache K V := { c with cache := c.cache.erase key }

def add (victim : GoMap K V → K) (c : Cache K V) (key : K) (value : V) : Cache K V :=
  let c := { c with cache := c.cache.insert key value }
  if c.cache.size > c.capacity then c.remove (victim c.cache) else c

def Within (c : Cache K V) (store : K → Option V) : Prop :=
  ∀ key value, c.get key = some value → store key = some value

variable {c : Cache K V} {store store' : K → Option V} {victim : GoMap K V → K} {key : K} {value : V}

@[simp] theorem get_remove (k : K) : (c.remove key).get k = if k = key then none else c.get k :=
  GoMap.lookup_delete _ _ _

theorem Within.remove (h : c.Within store) (hagree : ∀ k, k ≠ key → store' k = store k) :
    (c.remove key).Within store' := by
  intro k v hk
  rw [get_remove] at hk
  split_ifs at hk with hkk
  rw [hagree k hkk]
  exact h k v hk

theorem get_add {k : K} {v : V} (h : (c.add victim key value).get k = some v) :
    k = key ∧ v = value ∨ k ≠ key ∧ c.get k = some v := by
  have hinsert : ∀ v, get { c with cache := c.cache.insert key value } k = some v →
      k = key ∧ v = value ∨ k ≠ key ∧ c.get k = some v := by
    intro v hk
    simp only [get, GoMap.lookup_set] at hk
    split_ifs at hk with hkk
    · exact .inl ⟨hkk, (Option.some.inj hk).symm⟩
    · exact .inr ⟨hkk, hk⟩
  unfold Cache.add at h
  simp only at h
  split_ifs at h
  · rw [get_remove] at h
    split_ifs at h
    exact hinsert v h
  · exact hinsert v h

theorem Within.add (h : c.Within store) (hkey : store' key = some value)
    (hagree : ∀ k, k ≠ key → store' k = store k) : (c.add victim key value).Within store' := by
  intro k v hk
  rcases get_add hk with ⟨rfl, rfl⟩ | ⟨hne, hk⟩
  · exact hkey
  rw [hagree k hne]
  exact h k v hk

end Cache
end Lib
