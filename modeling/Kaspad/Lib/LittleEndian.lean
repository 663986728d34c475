import Mathlib.Data.List.Basic
import Mathlib.Tactic.Ring

/-! # Little-endian bytes

A number in a fixed count of bytes, lowest byte first, and the reader that takes the bytes of one
number off the front of a list.
-/

namespace Lib.LittleEndian
open List

def encode : ℕ → ℕ → List UInt8
  | 0, _ => []
  | width + 1, n => UInt8.ofNat n :: encode width (n / 256)

def decode : List UInt8 → ℕ
  | [] => 0
  | b :: l => b.toNat + 256 * decode l

@[simp] theorem length_encode (width n : ℕ) : (encode width n).length = width := by
  induction width generalizing n with
  | zero => rfl
  | succ width ih => simp [encode, ih]

theorem decode_encode (width n : ℕ) : decode (encode width n) = n % 256 ^ width := by
  induction width generalizing n with
  | zero => simp [encode, decode, Nat.mod_one]
  | succ width ih =>
    rw [encode, decode, ih, pow_succ', Nat.mod_mul, UInt8.toNat_ofNat']

theorem decode_encode_of_lt {width n : ℕ} (h : n < 256 ^ width) : decode (encode width n) = n := by
  rw [decode_encode, Nat.mod_eq_of_lt h]

theorem encode_decode (l : List UInt8) : encode l.length (decode l) = l := by
  induction l with
  | nil => rfl
  | cons b l ih =>
    have hhigh : (b.toNat + 256 * decode l) / 256 = decode l := by
      have := b.toNat_lt
      omega
    have hlow : UInt8.ofNat (b.toNat + 256 * decode l) = b := by
      apply UInt8.toNat_inj.mp
      have := b.toNat_lt
      rw [UInt8.toNat_ofNat']
      omega
    rw [length_cons, decode, encode, hhigh, ih, hlow]

def read (width : ℕ) (l : List UInt8) : Option (ℕ × List UInt8) :=
  if l.length < width then none else some (decode (l.take width), l.drop width)

theorem read_append {width n : ℕ} (h : n < 256 ^ width) (l : List UInt8) :
    read width (encode width n ++ l) = some (n, l) := by
  have htake : (encode width n ++ l).take width = encode width n := by
    rw [take_append_of_le_length (by simp), take_of_length_le (by simp)]
  have hdrop : (encode width n ++ l).drop width = l := by
    rw [drop_append_of_le_length (by simp), drop_of_length_le (by simp), nil_append]
  rw [read, if_neg (by simp), htake, hdrop, decode_encode_of_lt h]

end Lib.LittleEndian

/-! ## Self-delimiting bytes

A writer whose bytes show where they end. Such writers can be put one after the other, and what was
written can be told apart.
-/

namespace Lib
open List LittleEndian

variable {α : Type}

/-- The bytes of a value of `P` followed by anything determine the value and what follows. -/
def Delimited (P : α → Prop) (w : α → List UInt8) : Prop :=
  ∀ a a' r r', P a → P a' → w a ++ r = w a' ++ r' → a = a' ∧ r = r'

namespace Delimited

theorem encode (width : ℕ) : Delimited (· < 2 ^ (8 * width)) (LittleEndian.encode width) := by
  intro a a' r r' ha ha' heq
  rw [pow_mul] at ha ha'
  obtain ⟨hbytes, hrest⟩ := append_inj heq (by simp)
  have hdecode := congrArg LittleEndian.decode hbytes
  rw [decode_encode_of_lt ha, decode_encode_of_lt ha'] at hdecode
  exact ⟨hdecode, hrest⟩

theorem lengthPrefixed (width : ℕ) :
    Delimited (fun l : List UInt8 => l.length < 2 ^ (8 * width)) fun l => LittleEndian.encode width l.length ++ l := by
  intro l l' r r' hl hl' heq
  rw [append_assoc, append_assoc] at heq
  obtain ⟨hlength, hrest⟩ := encode width _ _ _ _ hl hl' heq
  exact append_inj hrest hlength

variable {P : α → Prop} {w : α → List UInt8}

theorem injective (h : Delimited P w) {a a' : α} (ha : P a) (ha' : P a') (heq : w a = w a') : a = a' :=
  (h a a' [] [] ha ha' (congrArg (· ++ []) heq)).1

theorem flatMap_injective (h : Delimited P w) (hne : ∀ a, w a ≠ []) {l l' : List α} (hl : ∀ a ∈ l, P a)
    (hl' : ∀ a ∈ l', P a) (heq : l.flatMap w = l'.flatMap w) : l = l' := by
  induction l generalizing l' with
  | nil =>
    cases l' with
    | nil => rfl
    | cons a' l' => exact absurd (append_eq_nil_iff.mp heq.symm).1 (hne a')
  | cons a l ih =>
    cases l' with
    | nil => exact absurd (append_eq_nil_iff.mp heq).1 (hne a)
    | cons a' l' =>
      rw [flatMap_cons, flatMap_cons] at heq
      obtain ⟨rfl, hrest⟩ := h a a' _ _ (hl a (by simp)) (hl' a' (by simp)) heq
      rw [ih (fun x hx => hl x (mem_cons_of_mem _ hx)) (fun x hx => hl' x (mem_cons_of_mem _ hx)) hrest]

end Delimited
end Lib
