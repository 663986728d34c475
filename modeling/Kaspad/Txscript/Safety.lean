import Kaspad.Txscript.Engine
import Mathlib.Tactic.Linarith
import Mathlib.Tactic.Positivity

/-! # The engine stays in range

No index or slice expression of the engine is out of range: each call returns or ends with an error of its own,
on a stack that it has made longer by no more than a small number of elements. -/

namespace Kaspad.Txscript
open Lib Prog List GoSlice Nat

/-- An error that a caller may see: neither an expression out of range nor a loop that does not end. -/
def Failure.Expected : Failure → Prop
  | .outOfRange => False
  | .running => False
  | _ => True

/-! ## Numbers -/

theorem toInt32_natCast {n : ℕ} (h : n ≤ maxInt32) : toInt32 n = n := by
  unfold maxInt32 at h
  exact Int.bmod_eq_of_le_mul_two (by omega) (by omega)

variable (v : List UInt8)

theorem checkMinimalDataEncoding_ends :
    checkMinimalDataEncoding v = .ok () ∨ ∃ e, checkMinimalDataEncoding v = .error e ∧ e.Expected := by
  unfold checkMinimalDataEncoding
  split
  · exact .inl rfl
  split_ifs
  · split
    · exact .inr ⟨_, rfl, trivial⟩
    split_ifs
    · exact .inr ⟨_, rfl, trivial⟩
    · exact .inl rfl
  · exact .inl rfl

def NumRange (n : ℤ) : Prop := -2 ^ 32 < n ∧ n < 2 ^ 32

theorem makeScriptNum_ends : (∃ n : ℤ, makeScriptNum v defaultScriptNumLen = .ok n ∧ NumRange n) ∨
      ∃ e, makeScriptNum v defaultScriptNumLen = .error e ∧ e.Expected := by
  unfold makeScriptNum
  split_ifs with hlen
  · exact .inr ⟨_, rfl, trivial⟩
  · exact .inr ⟨_, rfl, trivial⟩
  rcases checkMinimalDataEncoding_ends v with hmin | ⟨e, hmin, he⟩
  · have hlt : LittleEndian.decode v < 2 ^ 32 :=
      (decode_lt v).trans_le (Nat.pow_le_pow_right (by decide) (by unfold defaultScriptNumLen at hlen; omega))
    have hsign : 2 ^ (8 * (v.length - 1)) ≤ (2 : ℤ) ^ 24 :=
      pow_le_pow_right₀ (by norm_num) (by unfold defaultScriptNumLen at hlen; omega)
    have hpos : (0 : ℤ) < 2 ^ (8 * (v.length - 1)) := by positivity
    simp only [hmin, ok_bind]
    split
    · exact .inl ⟨0, rfl, by norm_num, by norm_num⟩
    split_ifs
    · exact .inl ⟨_, rfl, by omega, by omega⟩
    · exact .inl ⟨_, rfl, by omega, by omega⟩
  · simp only [hmin, error_bind]
    exact .inr ⟨e, rfl, he⟩

/-! ## Stacks -/

namespace Stack

def Short (s : Stack) : Prop := ∀ so ∈ s, so.length ≤ maxScriptElementSize

/-- With room for `k` more elements the call returns a value with `Q` or an error of its own, within this room. -/
structure Safe {α : Type} (k : ℕ) (m : Prog Stack Failure α) (Q : α → Prop) : Prop where
  ends : ∀ s : Stack, s.length + k ≤ maxInt32 → s.Short →
    Ends (fun a s' => Q a ∧ s'.length ≤ s.length + k ∧ s'.Short) (fun e _ => e.Expected) (exec m s)

abbrev Harmless {α : Type} (k : ℕ) (m : Prog Stack Failure α) : Prop := Safe k m fun _ => True

section
variable {α β : Type} {k k' : ℕ} {m : Prog Stack Failure α} {Q : α → Prop} {Q' : β → Prop}

theorem Safe.mono (h : Safe k m Q) (hk : k ≤ k') : Safe k' m Q := by
  refine ⟨fun s hs hshort => (h.ends s (by omega) hshort).mono (fun a s' ha => ⟨ha.1, ?_, ha.2.2⟩) fun _ _ he => he⟩
  exact ha.2.1.trans (by omega)

theorem Safe.bind {f : α → Prog Stack Failure β} (h : Safe k m Q) (hf : ∀ a, Q a → Safe k' (f a) Q') :
    Safe (k + k') (m >>= f) Q' := by
  refine ⟨fun s hs hshort => ends_bind (h.ends s (by omega) hshort) fun a s' ha => ?_⟩
  obtain ⟨hQ, hlen, hshort'⟩ := ha
  refine ((hf a hQ).ends s' (by omega) hshort').mono (fun b s'' hb => ⟨hb.1, ?_, hb.2.2⟩) fun _ _ he => he
  exact hb.2.1.trans (by omega)

theorem safe_pure {a : α} (h : Q a) : Safe 0 (pure a) Q := ⟨fun _ _ hshort => ⟨h, le_rfl, hshort⟩⟩

theorem safe_throw {e : Failure} (h : e.Expected) : Safe 0 (throw e : Prog Stack Failure α) Q := ⟨fun _ _ _ => h⟩

theorem Safe.discard (h : Safe k m Q) : Harmless k (discard m) :=
  h.bind fun _ _ => safe_pure trivial

theorem Safe.times {m : Prog Stack Failure Unit} (h : Harmless k m) (n : ℕ) : Harmless (n * k) (times m n) := by
  induction n with
  | zero => exact (safe_pure trivial).mono (zero_le _)
  | succ n ih => exact (h.bind fun _ _ => ih).mono (by rw [succ_mul]; omega)

end

def ShortElement (so : List UInt8) : Prop := so.length ≤ maxScriptElementSize

theorem safe_pushByteArray {so : List UInt8} (h : ShortElement so) : Harmless 1 (pushByteArray so) := by
  refine ⟨fun s _ hshort => ⟨trivial, by simp, fun so' hso' => ?_⟩⟩
  rcases mem_append.mp hso' with hso' | hso'
  · exact hshort so' hso'
  · exact mem_singleton.mp hso' ▸ h

theorem safe_pushBool (val : Bool) : Harmless 1 (pushBool val) := by
  refine safe_pushByteArray ?_
  cases val <;> simp [ShortElement, fromBool, maxScriptElementSize]

theorem safe_pushInt {val : ℤ} (h : -2 ^ 63 < val) (h' : val < 2 ^ 63) : Harmless 1 (pushInt val) := by
  obtain ⟨b, hb, hlen, -⟩ := exists_bytes h h'
  refine ⟨fun s hs hshort => ?_⟩
  rw [pushInt, exec_bind, exec_ofExcept, hb]
  exact (safe_pushByteArray (hlen.trans (by decide))).ends s hs hshort

theorem nipped_ok {s : Stack} {idx : ℤ} (h : 0 ≤ idx) (h' : idx < s.length) :
    ∃ rest, nipped s s.length idx = .ok rest ∧ rest.length ≤ s.length ∧ ∀ so ∈ rest, so ∈ s := by
  unfold nipped
  split_ifs with hzero hlast
  · obtain ⟨rest, hrest⟩ := exists_slice (l := s) le_rfl (show (0 : ℤ) ≤ s.length - 1 by omega) (by omega)
    have hlen := length_of_slice hrest
    exact ⟨rest, by rw [hrest]; rfl, by omega, mem_of_slice hrest⟩
  · obtain ⟨rest, hrest⟩ := exists_slice (l := s) zero_le_one (show (1 : ℤ) ≤ s.length by omega) le_rfl
    have hlen := length_of_slice hrest
    exact ⟨rest, by rw [hrest]; rfl, by omega, mem_of_slice hrest⟩
  obtain ⟨s1, hs1⟩ := exists_slice (l := s) (show 0 ≤ s.length - idx by omega)
    (show (s.length : ℤ) - idx ≤ s.length by omega) le_rfl
  obtain ⟨front, hfront⟩ := exists_slice (l := s) le_rfl (show 0 ≤ s.length - idx - 1 by omega) (by omega)
  have hlen := length_of_slice hs1
  have hlen' := length_of_slice hfront
  refine ⟨front ++ s1, by rw [hs1, hfront]; rfl, ?_, fun so hso => ?_⟩
  · rw [length_append]
    omega
  · exact (mem_append.mp hso).elim (mem_of_slice hfront so) (mem_of_slice hs1 so)

variable (idx : ℤ)

theorem safe_nipN : Safe 0 (nipN idx) ShortElement := by
  refine ⟨fun s hs hshort => ?_⟩
  have hdepth : depth s = s.length := toInt32_natCast (by omega)
  simp only [nipN, exec_bind, exec_get, hdepth]
  split_ifs with hrange
  · trivial
  obtain ⟨so, hso⟩ := exists_index (l := s) (i := s.length - idx - 1) (by omega) (by omega)
  have hidx : 0 ≤ idx ∧ idx < s.length := by omega
  obtain ⟨rest, hrest, hlen, hmem⟩ := nipped_ok hidx.1 hidx.2
  simp only [exec_bind, exec_ofExcept, hso, hrest, checked]
  exact ⟨hshort so (mem_of_index hso), hlen, fun so' hso' => hshort so' (hmem so' hso')⟩

theorem safe_popByteArray : Safe 0 popByteArray ShortElement := safe_nipN 0

theorem safe_popBool : Harmless 0 popBool := safe_popByteArray.bind fun _ _ => safe_pure trivial

theorem safe_makeScriptNum (so : List UInt8) : Safe 0 (ofExcept (makeScriptNum so defaultScriptNumLen)) NumRange := by
  refine ⟨fun s _ hshort => ?_⟩
  rw [exec_ofExcept]
  rcases makeScriptNum_ends so with ⟨n, hn, hrange⟩ | ⟨e, he, hexpected⟩
  · rw [hn]
    exact ⟨hrange, le_rfl, hshort⟩
  rw [he]
  exact hexpected

theorem safe_popInt : Safe 0 popInt NumRange := safe_popByteArray.bind fun so _ => safe_makeScriptNum so

theorem safe_peekByteArray : Safe 0 (peekByteArray idx) ShortElement := by
  refine ⟨fun s hs hshort => ?_⟩
  have hdepth : depth s = s.length := toInt32_natCast (by omega)
  simp only [peekByteArray, exec_bind, exec_get, hdepth]
  split_ifs with hrange
  · trivial
  obtain ⟨so, hso⟩ := exists_index (l := s) (i := s.length - idx - 1) (by omega) (by omega)
  simp only [exec_ofExcept, hso, checked]
  exact ⟨hshort so (mem_of_index hso), le_rfl, hshort⟩

theorem safe_tuck : Harmless 3 tuck :=
  safe_popByteArray.bind fun _ h2 => safe_popByteArray.bind fun _ h1 =>
    (safe_pushByteArray h2).bind fun _ _ => (safe_pushByteArray h1).bind fun _ _ => safe_pushByteArray h2

theorem safe_copyToTop : Harmless 1 (copyToTop idx) :=
  (safe_peekByteArray idx).bind fun _ h => safe_pushByteArray h

theorem safe_moveToTop : Harmless 1 (moveToTop idx) :=
  (safe_nipN idx).bind fun _ h => safe_pushByteArray h

variable (n : ℤ)

theorem safe_dropN : Harmless 0 (dropN n) := by
  unfold dropN
  split_ifs
  · exact safe_throw trivial
  · exact (safe_popByteArray.discard.times n.toNat).mono (by simp)

theorem safe_loop {m : Prog Stack Failure Unit} (h : Harmless 1 m) (n : ℤ) (description : String) :
    Harmless n.toNat (if n < 1 then invalidCount description else times m n.toNat) := by
  split_ifs
  · exact Safe.mono (safe_throw (by trivial)) (zero_le _)
  · exact (h.times n.toNat).mono (by simp)

theorem safe_dupN : Harmless n.toNat (dupN n) := safe_loop (safe_copyToTop _) n _

theorem safe_rotN : Harmless n.toNat (rotN n) := safe_loop (safe_moveToTop _) n _

theorem safe_swapN : Harmless n.toNat (swapN n) := safe_loop (safe_moveToTop _) n _

theorem safe_overN : Harmless n.toNat (overN n) := safe_loop (safe_copyToTop _) n _

end Stack

/-! ## Calls on the engine -/

def Engine.combined (vm : Engine) : ℕ := vm.dstack.length + vm.astack.length

structure Engine.Short (vm : Engine) : Prop where
  dstack : vm.dstack.Short
  astack : vm.astack.Short

/-- Room for `k` more elements, short elements, and the verified input exists. -/
structure Engine.Ready (vm : Engine) (k : ℕ) : Prop where
  room : vm.combined + k ≤ maxInt32
  short : vm.Short
  nonneg : 0 ≤ vm.txIdx
  input : vm.txIdx < vm.tx.inputs.length

structure Frame (vm vm' : Engine) : Prop where
  scriptVersion : vm'.scriptVersion = vm.scriptVersion
  scripts : vm'.scripts = vm.scripts
  scriptIdx : vm'.scriptIdx = vm.scriptIdx
  scriptOff : vm'.scriptOff = vm.scriptOff
  tx : vm'.tx = vm.tx
  txIdx : vm'.txIdx = vm.txIdx
  isP2SH : vm'.isP2SH = vm.isP2SH
  savedFirstStack : vm'.savedFirstStack = vm.savedFirstStack

structure Effect (k v : ℕ) (vm vm' : Engine) : Prop extends Frame vm vm' where
  combined : vm'.combined ≤ vm.combined + k
  short : vm.Short → vm'.Short
  numOps : vm'.numOps ≤ max vm.numOps maxOpsPerScript
  verifications : vm'.verifications ≤ vm.verifications + v

theorem Effect.refl (vm : Engine) : Effect 0 0 vm vm :=
  ⟨⟨rfl, rfl, rfl, rfl, rfl, rfl, rfl, rfl⟩, le_rfl, fun h => ⟨h.dstack, h.astack⟩, le_max_left _ _, le_rfl⟩

theorem effect_condStack (vm : Engine) (condStack : List OpCond) : Effect 0 0 vm { vm with condStack := condStack } :=
  { Effect.refl vm with short := fun h => ⟨h.dstack, h.astack⟩ }

variable {vm' : Engine}

theorem Effect.trans {k k' v v' : ℕ} {vm vm'' : Engine} (h : Effect k v vm vm')
    (h' : Effect k' v' vm' vm'') : Effect (k + k') (v + v') vm vm'' := by
  refine ⟨⟨h'.scriptVersion.trans h.scriptVersion, h'.scripts.trans h.scripts, h'.scriptIdx.trans h.scriptIdx,
    h'.scriptOff.trans h.scriptOff, h'.tx.trans h.tx, h'.txIdx.trans h.txIdx, h'.isP2SH.trans h.isP2SH,
    h'.savedFirstStack.trans h.savedFirstStack⟩, ?_, h'.short ∘ h.short, ?_, ?_⟩
  · have := h.combined
    have := h'.combined
    omega
  · have := h.numOps
    have := h'.numOps
    omega
  have := h.verifications
  have := h'.verifications
  omega

theorem Effect.ready {k k' v : ℕ} {vm : Engine} (h : Effect k v vm vm') (hvm : vm.Ready (k + k')) : vm'.Ready k' := by
  have hroom := hvm.room
  have hcombined := h.combined
  refine ⟨by omega, h.short hvm.short, ?_, ?_⟩
  · rw [h.txIdx]
    exact hvm.nonneg
  rw [h.txIdx, h.tx]
  exact hvm.input

/-- As `Safe` of the stack, with an effect of at most `k` elements and `v` verifications. -/
structure Safe {α : Type} (k v : ℕ) (m : Run α) (Q : α → Prop) : Prop where
  ends : ∀ vm : Engine, vm.Ready k → Ends (fun a vm' => Q a ∧ Effect k v vm vm')
    (fun e vm' => e.Expected ∧ vm'.verifications ≤ vm.verifications + v) (exec m vm)

abbrev Harmless {α : Type} (k v : ℕ) (m : Run α) : Prop := Safe k v m fun _ => True

section
variable {α β : Type} {k k' v v' : ℕ} {m : Run α} {Q : α → Prop} {Q' : β → Prop}

theorem Safe.mono (h : Safe k v m Q) (hk : k ≤ k') (hv : v ≤ v') : Safe k' v' m Q := by
  refine ⟨fun vm hvm => (h.ends vm ⟨by have := hvm.room; omega, hvm.short, hvm.nonneg, hvm.input⟩).mono
    (fun a vm' ha => ⟨ha.1, ?_⟩) fun e vm' he => ⟨he.1, he.2.trans (by omega)⟩⟩
  have heffect := ha.2
  exact { heffect with
    combined := heffect.combined.trans (by omega)
    verifications := heffect.verifications.trans (by omega) }

variable {f : α → Run β}

theorem Safe.bind (h : Safe k v m Q) (hf : ∀ a, Q a → Safe k' v' (f a) Q') : Safe (k + k') (v + v') (m >>= f) Q' := by
  refine ⟨fun vm hvm => ?_⟩
  have hm := h.ends vm ⟨by have := hvm.room; omega, hvm.short, hvm.nonneg, hvm.input⟩
  refine ends_bind (hm.mono (fun a vm' ha => ha) fun e vm' he => ⟨he.1, he.2.trans (by omega)⟩) fun a vm' ha => ?_
  obtain ⟨hQ, heffect⟩ := ha
  have hverifications := heffect.verifications
  exact ((hf a hQ).ends vm' (heffect.ready hvm)).mono (fun b vm'' hb => ⟨hb.1, heffect.trans hb.2⟩)
    fun e vm'' he => ⟨he.1, by omega⟩

theorem Safe.seq (h : Safe 0 0 m Q) (hf : ∀ a, Q a → Safe k v (f a) Q') : Safe k v (m >>= f) Q' :=
  (h.bind hf).mono (by omega) (by omega)

theorem Safe.last (h : Safe k v m Q) (hf : ∀ a, Q a → Safe 0 0 (f a) Q') : Safe k v (m >>= f) Q' :=
  h.bind hf

theorem safe_pure {a : α} (h : Q a) : Safe k v (pure a) Q :=
  Safe.mono (k := 0) (v := 0) ⟨fun vm _ => ⟨h, Effect.refl vm⟩⟩ (zero_le _) (zero_le _)

theorem safe_throw {e : Failure} (h : e.Expected) : Safe k v (throw e : Run α) Q :=
  ⟨fun _ _ => ⟨h, le_add_right _ _⟩⟩

theorem safe_fail (code : ErrorCode) (description : String) : Safe k v (Engine.fail code description : Run α) Q :=
  safe_throw trivial

theorem safe_ofExcept {r : Except Failure α} (h : ∀ a, r = .ok a → Q a) (h' : ∀ e, r = .error e → e.Expected) :
    Safe 0 0 (ofExcept r : Run α) Q := by
  refine ⟨fun vm _ => ?_⟩
  rw [exec_ofExcept]
  cases r with
  | ok a => exact ⟨h a rfl, Effect.refl vm⟩
  | error e => exact ⟨h' e rfl, le_rfl⟩

theorem safe_get_bind {f : Engine → Run β} (h : ∀ vm, Safe k v (f vm) Q') : Safe k v (get >>= f) Q' := by
  refine ⟨fun vm hvm => ?_⟩
  rw [exec_bind, exec_get]
  exact (h vm).ends vm hvm

theorem safe_dstackM {m : Prog Stack Failure α} (h : Stack.Safe k m Q) : Safe k 0 (Engine.dstackM m) Q := by
  refine ⟨fun vm hvm => ?_⟩
  have hroom := hvm.room
  unfold Engine.combined at hroom
  have hends := h.ends vm.dstack (by push_cast at hroom ⊢; omega) hvm.short.dstack
  rw [Engine.dstackM, exec_zoom]
  rcases hexec : exec m vm.dstack with ⟨e | a, s⟩ <;> rw [hexec] at hends
  · exact ⟨hends, le_rfl⟩
  obtain ⟨hQ, hlen, hshort⟩ := hends
  refine ⟨hQ, ⟨rfl, rfl, rfl, rfl, rfl, rfl, rfl, rfl⟩, ?_, fun _ => ⟨hshort, hvm.short.astack⟩, le_max_left _ _,
    le_rfl⟩
  simp only [Engine.combined]
  omega

theorem safe_astackM {m : Prog Stack Failure α} (h : Stack.Safe k m Q) : Safe k 0 (Engine.astackM m) Q := by
  refine ⟨fun vm hvm => ?_⟩
  have hroom := hvm.room
  unfold Engine.combined at hroom
  have hends := h.ends vm.astack (by push_cast at hroom ⊢; omega) hvm.short.astack
  rw [Engine.astackM, exec_zoom]
  rcases hexec : exec m vm.astack with ⟨e | a, s⟩ <;> rw [hexec] at hends
  · exact ⟨hends, le_rfl⟩
  obtain ⟨hQ, hlen, hshort⟩ := hends
  refine ⟨hQ, ⟨rfl, rfl, rfl, rfl, rfl, rfl, rfl, rfl⟩, ?_, fun _ => ⟨hvm.short.dstack, hshort⟩, le_max_left _ _,
    le_rfl⟩
  simp only [Engine.combined]
  omega

end

/-! ## Opcode functions -/

variable (crypto : Crypto) (op : ParsedOpcode)

open Engine Stack

theorem safe_pop : Safe 0 0 (dstackM popByteArray) ShortElement := safe_dstackM safe_popByteArray

theorem safe_popNum : Safe 0 0 (dstackM popInt) NumRange := safe_dstackM safe_popInt

theorem safe_push {so : List UInt8} (h : ShortElement so) : Harmless 1 0 (dstackM (pushByteArray so)) :=
  safe_dstackM (safe_pushByteArray h)

theorem safe_pushNum {val : ℤ} (h : -2 ^ 63 < val) (h' : val < 2 ^ 63) : Harmless 1 0 (dstackM (pushInt val)) :=
  safe_dstackM (safe_pushInt h h')

theorem safe_opcodeN : Harmless 1 0 (opcodeN op) :=
  safe_pushNum (by omega) (by omega)

theorem safe_setCond (f : Engine → List OpCond) :
    Safe 0 0 (modify fun vm => { vm with condStack := f vm } : Run Unit) fun _ => True :=
  ⟨fun vm _ => ⟨trivial, effect_condStack vm _⟩⟩

theorem safe_popIfBool : Harmless 0 0 popIfBool := by
  refine safe_pop.seq fun so _ => ?_
  split_ifs
  · exact safe_pure trivial
  · exact safe_pure trivial
  · exact safe_fail _ _

theorem safe_conditional (expected : Bool) : Harmless 0 0 (conditional expected) := by
  refine safe_get_bind fun vm => ?_
  split_ifs
  · exact safe_popIfBool.seq fun ok _ => safe_setCond _
  · exact safe_setCond _

theorem safe_opcodeElse : Harmless 0 0 (opcodeElse op) := by
  refine ⟨fun vm _ => ?_⟩
  rw [opcodeElse, exec_bind, exec_get]
  cases h : vm.condStack.getLast? with
  | none => simpa only [h] using ⟨trivial, le_rfl⟩
  | some cond =>
    simp only [h, exec_set]
    exact ⟨trivial, effect_condStack vm _⟩

theorem safe_opcodeEndif : Harmless 0 0 (opcodeEndif op) := by
  refine ⟨fun vm _ => ?_⟩
  rw [opcodeEndif, exec_bind, exec_get]
  simp only
  split_ifs
  · exact ⟨trivial, le_rfl⟩
  · exact ⟨trivial, effect_condStack vm _⟩

theorem safe_abstractVerify (c : ErrorCode) : Harmless 0 0 (abstractVerify op c) := by
  refine (safe_dstackM safe_popBool).seq fun verified _ => ?_
  split_ifs
  · exact safe_pure trivial
  · exact safe_fail _ _

variable {m : Run Unit}

theorem safe_andVerify {k v : ℕ} (h : Harmless k v m) (c : ErrorCode) : Harmless k v (andVerify op m c) :=
  h.bind fun _ _ => safe_abstractVerify op c

theorem safe_verifyLockTime (txLockTime lockTime : ℕ) : Harmless 0 0 (verifyLockTime txLockTime lockTime) := by
  unfold verifyLockTime
  split_ifs
  · exact safe_fail _ _
  · exact safe_pure trivial

theorem safe_verifyLockTimeWithThreshold (txLockTime threshold lockTime : ℕ) :
    Harmless 0 0 (verifyLockTimeWithThreshold txLockTime threshold lockTime) := by
  have hthreshold : Harmless 0 0 (verifyLockTimeThreshold txLockTime threshold lockTime) := by
    unfold verifyLockTimeThreshold
    split_ifs
    · exact safe_pure trivial
    · exact safe_fail _ _
  exact hthreshold.seq fun _ _ => safe_verifyLockTime txLockTime lockTime

theorem safe_popUint64 (what : String) : Harmless 0 0 (popUint64 what) := by
  refine safe_pop.seq fun bytes _ => ?_
  split_ifs
  · exact safe_fail _ _
  · exact safe_pure trivial

theorem safe_currentInput : Harmless 0 0 currentInput := by
  refine ⟨fun vm hvm => ?_⟩
  obtain ⟨input, hinput⟩ := exists_index hvm.nonneg hvm.input
  rw [currentInput, exec_bind, exec_get]
  simp only [exec_ofExcept, hinput, checked]
  exact ⟨trivial, Effect.refl vm⟩

theorem safe_opcodeCheckLockTimeVerify : Harmless 0 0 opcodeCheckLockTimeVerify := by
  refine (safe_popUint64 _).seq fun stackLockTime _ => safe_get_bind fun vm => ?_
  refine (safe_verifyLockTimeWithThreshold _ _ _).seq fun _ _ => safe_currentInput.seq fun input _ => ?_
  split_ifs
  · exact safe_fail _ _
  · exact safe_pure trivial

theorem safe_opcodeCheckSequenceVerify : Harmless 0 0 opcodeCheckSequenceVerify := by
  refine (safe_popUint64 _).seq fun stackSequence _ => ?_
  split_ifs
  · exact safe_pure trivial
  refine safe_currentInput.seq fun input _ => ?_
  simp only
  split_ifs
  · exact safe_fail _ _
  · exact safe_verifyLockTime _ _

theorem safe_opcodeIfDup : Harmless 1 0 opcodeIfDup := by
  refine (safe_dstackM (safe_peekByteArray 0)).seq fun so hso => ?_
  split_ifs
  · exact safe_push hso
  · exact safe_pure trivial

theorem safe_opcodeDepth : Harmless 1 0 opcodeDepth := by
  refine safe_get_bind fun vm => safe_pushNum ?_ ?_
  all_goals
    unfold depth toInt32
    have := Int.bmod_lt (x := (vm.dstack.length : ℤ)) (show 0 < 2 ^ 32 by decide)
    have := Int.le_bmod (x := (vm.dstack.length : ℤ)) (show 0 < 2 ^ 32 by decide)
    omega

theorem safe_opcodeEqual : Harmless 1 0 opcodeEqual :=
  safe_pop.seq fun _ _ => safe_pop.seq fun _ _ => safe_dstackM (safe_pushBool _)

variable {f : ℤ → ℤ} {pubKeys : List (List UInt8)} {s : MultiSig}

theorem safe_unary (hf : ∀ m, NumRange m → -2 ^ 63 < f m ∧ f m < 2 ^ 63) : Harmless 1 0 (unary f) :=
  safe_popNum.seq fun m hm => safe_pushNum (hf m hm).1 (hf m hm).2

theorem safe_binary {f : ℤ → ℤ → ℤ} (hf : ∀ v0 v1, NumRange v0 → NumRange v1 → -2 ^ 63 < f v0 v1 ∧ f v0 v1 < 2 ^ 63) :
    Harmless 1 0 (binary f) :=
  safe_popNum.seq fun v0 h0 => safe_popNum.seq fun v1 h1 => safe_pushNum (hf v0 v1 h0 h1).1 (hf v0 v1 h0 h1).2

theorem fromCond_range (p : Prop) [Decidable p] : -2 ^ 63 < fromCond p ∧ fromCond p < 2 ^ 63 := by
  unfold fromCond
  split_ifs <;> decide

theorem safe_opcodeWithin : Harmless 1 0 opcodeWithin :=
  safe_popNum.seq fun _ _ => safe_popNum.seq fun _ _ => safe_popNum.seq fun _ _ =>
    safe_pushNum (fromCond_range _).1 (fromCond_range _).2

theorem safe_hashTop {hash : List UInt8 → List UInt8} (h : ∀ buf, (hash buf).length = 32) :
    Harmless 1 0 (hashTop hash) :=
  safe_pop.seq fun buf _ => safe_push ((h buf).trans_le (by decide))

/-! ### Signatures -/

theorem safe_countVerification : Harmless 0 1 countVerification :=
  ⟨fun _ _ => ⟨trivial, ⟨rfl, rfl, rfl, rfl, rfl, rfl, rfl, rfl⟩, le_rfl, fun h => ⟨h.dstack, h.astack⟩, le_max_left _ _, le_rfl⟩⟩

theorem safe_checkHashType (hashType : UInt8) : Harmless 0 0 (ofExcept (checkHashType hashType) : Run Unit) := by
  refine safe_ofExcept (fun _ _ => trivial) fun e he => ?_
  unfold checkHashType at he
  split_ifs at he
  cases he
  trivial

theorem safe_checkSignatureLength (sig : List UInt8) :
    Harmless 0 0 (ofExcept (checkSignatureLength sig) : Run Unit) := by
  refine safe_ofExcept (fun _ _ => trivial) fun e he => ?_
  unfold checkSignatureLength at he
  split_ifs at he
  cases he
  trivial

variable (scheme : SignatureScheme)

theorem safe_checkPubKeyEncoding (pubKey : List UInt8) :
    Harmless 0 0 (ofExcept (scheme.checkPubKeyEncoding pubKey) : Run Unit) := by
  refine safe_ofExcept (fun _ _ => trivial) fun e he => ?_
  unfold SignatureScheme.checkPubKeyEncoding at he
  split_ifs at he
  cases he
  trivial

theorem safe_checkSig : Harmless 1 1 (checkSig scheme) := by
  refine (safe_countVerification.bind fun _ _ => ?_).mono (k := 0 + 1) (v := 1 + 0) le_rfl le_rfl
  refine safe_pop.seq fun pkBytes _ => safe_pop.seq fun fullSigBytes _ => ?_
  cases fullSigBytes.getLast? with
  | none => exact safe_dstackM (safe_pushBool _)
  | some hashType =>
    refine (safe_checkHashType hashType).seq fun _ _ => (safe_checkSignatureLength _).seq fun _ _ => ?_
    refine (safe_checkPubKeyEncoding scheme pkBytes).seq fun _ _ => safe_get_bind fun vm => ?_
    split
    · simp only
      split_ifs
      · exact safe_fail _ _
      · exact safe_dstackM (safe_pushBool _)
    · exact safe_dstackM (safe_pushBool _)

theorem safe_addOps (n : ℤ) : Harmless 0 0 (addOps n) := by
  refine ⟨fun vm _ => ?_⟩
  simp only [addOps, exec_bind, exec_modify, exec_get]
  split_ifs with hmax
  · exact ⟨trivial, le_rfl⟩
  exact ⟨trivial, ⟨rfl, rfl, rfl, rfl, rfl, rfl, rfl, rfl⟩, le_rfl, fun h => ⟨h.dstack, h.astack⟩,
    le_max_of_le_right (not_lt.mp hmax), le_rfl⟩

theorem safe_popMany (n : ℕ) : Safe 0 0 (popMany n) fun l => l.length = n := by
  induction n with
  | zero => exact safe_pure rfl
  | succ n ih =>
    exact safe_pop.seq fun so _ => ih.seq fun rest hrest => safe_pure (by simp [hrest])

structure MultiSig.Fits (s : MultiSig) (pubKeys : List (List UInt8)) : Prop where
  keys : s.numPubKeys + s.pubKeyIdx = pubKeys.length
  keyIdx : -1 ≤ s.pubKeyIdx
  sigs : s.signatureIdx + s.numSignatures = s.signatures.length
  sigIdx : 0 ≤ s.signatureIdx

theorem safe_checked {α : Type} {o : Option α} {a : α} (h : o = some a) :
    Safe 0 0 (ofExcept (checked o) : Run α) (· = a) := by
  subst h
  refine safe_ofExcept (fun b hb => ?_) fun e he => ?_
  · exact (Except.ok.inj hb).symm
  · cases he

theorem safe_parseSig (sigInfo : ParsedSigInfo) (hashType : UInt8) (signature : List UInt8) :
    Harmless 0 0 (ofExcept (parseSig scheme sigInfo hashType signature) : Run ParsedSigInfo) := by
  refine safe_ofExcept (fun _ _ => trivial) fun e he => ?_
  unfold parseSig checkHashType checkSignatureLength at he
  split_ifs at he <;> simp [pure, Except.pure] at he <;> subst he <;> trivial

structure MultiSig.Round (s s' : MultiSig) (pubKeys : List (List UInt8)) : Prop extends s'.Fits pubKeys where
  left : s'.numPubKeys = s.numPubKeys
  fewer : s'.numSignatures ≤ s.numSignatures

theorem safe_verifyNext (hs : s.Fits pubKeys) (hkey : 0 ≤ s.pubKeyIdx) (hsig : 0 < s.numSignatures)
    (hleft : s.numSignatures ≤ s.numPubKeys) :
    Safe 0 1 (verifyNext scheme pubKeys s) fun s' => s.Round s' pubKeys := by
  obtain ⟨hkeys, hkeyIdx, hsigs, hsigIdx⟩ := hs
  obtain ⟨sigInfo, hsigInfo⟩ := exists_index (l := s.signatures) hsigIdx (by omega)
  obtain ⟨pubKey, hpubKey⟩ := exists_index (l := pubKeys) hkey (by omega)
  have hset (info : ParsedSigInfo) :
      s.Round { s with signatures := s.signatures.set s.signatureIdx.toNat info } pubKeys :=
    ⟨⟨hkeys, hkeyIdx, by simpa using hsigs, hsigIdx⟩, rfl, le_rfl⟩
  refine (safe_checked hsigInfo).seq fun _ heq => ?_
  subst heq
  refine (safe_checked hpubKey).seq fun _ heq => ?_
  subst heq
  split
  · exact safe_pure ⟨⟨hkeys, hkeyIdx, hsigs, hsigIdx⟩, rfl, le_rfl⟩
  refine (safe_parseSig scheme _ _ _).seq fun info _ => ?_
  split
  · exact safe_pure (hset info)
  refine (safe_checkPubKeyEncoding scheme _).seq fun _ _ => ?_
  split
  · exact safe_pure (hset info)
  refine safe_get_bind fun vm => ?_
  split
  · exact safe_throw trivial
  refine safe_countVerification.last fun _ _ => ?_
  split_ifs
  · exact safe_pure ⟨⟨hkeys, hkeyIdx, by simp; omega, by simp; omega⟩, rfl, by simp⟩
  · exact safe_pure (hset info)

theorem safe_verifyLoop {rounds : ℕ} (hs : s.Fits pubKeys)
    (hleft : 0 < s.numSignatures → 1 ≤ s.numPubKeys) (hrounds : s.numPubKeys ≤ rounds) :
    Harmless 0 (s.numPubKeys - 1).toNat (verifyLoop scheme pubKeys rounds s) := by
  induction rounds generalizing s with
  | zero =>
    unfold verifyLoop
    rw [if_neg (by intro hpos; have := hleft hpos; omega)]
    exact safe_pure trivial
  | succ rounds ih =>
    unfold verifyLoop
    split_ifs with hpos
    · simp only
      split_ifs with hmore
      · exact safe_pure trivial
      have hnext : MultiSig.Fits { s with pubKeyIdx := s.pubKeyIdx + 1, numPubKeys := s.numPubKeys - 1 } pubKeys := by
        obtain ⟨hkeys, hkeyIdx, hsigs, hsigIdx⟩ := hs
        exact ⟨by simp; omega, by simp; omega, hsigs, hsigIdx⟩
      have hkey := hs.keyIdx
      refine Safe.mono (k := 0 + 0) (v := 1 + (s.numPubKeys - 1 - 1).toNat) ?_ le_rfl (by omega)
      refine (safe_verifyNext scheme hnext (by simp; omega) hpos (not_lt.mp hmore)).bind fun s' hs' => ?_
      have hleft' := hs'.left
      have hfewer := hs'.fewer
      simp only at hleft' hfewer
      have hih := ih hs'.toFits (by omega) (by omega)
      rwa [hleft'] at hih
    · exact safe_pure trivial

theorem safe_checkMultiSigOf (numPubKeys : ℤ) :
    Harmless 1 (min 20 numPubKeys.toNat) (checkMultiSigOf scheme numPubKeys) := by
  unfold checkMultiSigOf maxPubKeysPerMultiSig
  split_ifs with hneg hmany
  · exact safe_fail _ _
  · exact safe_fail _ _
  refine (safe_addOps _).seq fun _ _ => (safe_popMany _).seq fun pubKeys hpubKeys => ?_
  refine safe_popNum.seq fun numSigs _ => ?_
  simp only
  split_ifs with hnegative hmore
  · exact safe_fail _ _
  · exact safe_fail _ _
  refine (safe_popMany _).seq fun signatures hsignatures => ?_
  have hloop : Harmless 0 (numPubKeys + 1 - 1).toNat (verifyLoop scheme pubKeys (numPubKeys.toNat + 1)
      ⟨numSigs.int32, numPubKeys + 1, -1, 0, signatures.map fun signature => ⟨signature, none, false⟩⟩)
      := by
    refine safe_verifyLoop scheme (s := ⟨numSigs.int32, numPubKeys + 1, -1, 0, _⟩) ⟨?_, ?_, ?_, ?_⟩ (fun _ => ?_) ?_
    · simp only
      omega
    · exact le_rfl
    · simp only [length_map]
      omega
    · exact le_rfl
    · simp only
      omega
    simp only
    omega
  refine Safe.mono (k := 0 + 1) (v := (numPubKeys + 1 - 1).toNat + 0) (hloop.bind fun success _ => ?_) le_rfl
    (by omega)
  split_ifs
  · exact safe_fail _ _
  · exact safe_dstackM (safe_pushBool _)

theorem safe_checkMultiSig : Harmless 1 20 (checkMultiSig scheme) :=
  safe_popNum.seq fun _ _ => (safe_checkMultiSigOf scheme _).mono le_rfl (by omega)

/-! ### All functions -/

def OpFunc.maxVerifications : OpFunc → ℕ
  | .opcodeCheckSig | .opcodeCheckSigECDSA | .opcodeCheckSigVerify => 1
  | .opcodeCheckMultiSig | .opcodeCheckMultiSigECDSA | .opcodeCheckMultiSigVerify => maxPubKeysPerMultiSig
  | _ => 0

theorem toInt64_range {n : ℤ} (h : -2 ^ 34 < n ∧ n < 2 ^ 34) : -2 ^ 63 < toInt64 n ∧ toInt64 n < 2 ^ 63 := by
  rw [toInt64_of_lt (by omega) (by omega)]
  omega

theorem safe_opcodeSize : Harmless 1 0 opcodeSize := by
  refine (safe_dstackM (safe_peekByteArray 0)).seq fun so hso => ?_
  unfold ShortElement maxScriptElementSize at hso
  exact safe_pushNum (by omega) (by omega)

theorem Safe.le_three {k v : ℕ} (h : Harmless k v m) (hk : k ≤ 3 := by decide) : Harmless 3 v m :=
  h.mono hk le_rfl

theorem safe_comparison {p : ℤ → ℤ → Prop} [∀ v0 v1, Decidable (p v0 v1)] :
    Harmless 3 0 (binary fun v0 v1 => fromCond (p v0 v1)) :=
  (safe_binary fun _ _ _ _ => fromCond_range _).mono (by decide) le_rfl

theorem safe_call {f : OpFunc} (hdata : f = .opcodePushData → ShortElement op.data) :
    Harmless 3 f.maxVerifications (f.call crypto op) := by
  cases f with
  | opcodeDisabled | opcodeReserved | opcodeInvalid | opcodeReturn =>
    exact safe_fail _ _
  | opcodeFalse => exact (safe_push (zero_le _)).le_three
  | opcodePushData => exact (safe_push (hdata rfl)).le_three
  | opcode1Negate => exact (safe_pushNum (by decide) (by decide)).le_three
  | opcodeN => exact (safe_opcodeN op).le_three
  | opcodeNop => exact safe_pure trivial
  | opcodeIf | opcodeNotIf => exact (safe_conditional _).le_three
  | opcodeElse => exact (safe_opcodeElse op).le_three
  | opcodeEndif => exact (safe_opcodeEndif op).le_three
  | opcodeVerify => exact (safe_abstractVerify op _).le_three
  | opcodeCheckLockTimeVerify => exact safe_opcodeCheckLockTimeVerify.le_three
  | opcodeCheckSequenceVerify => exact safe_opcodeCheckSequenceVerify.le_three
  | opcodeToAltStack => exact (safe_pop.seq fun so hso => safe_astackM (safe_pushByteArray hso)).le_three
  | opcodeFromAltStack =>
    exact ((safe_astackM safe_popByteArray).seq fun so hso => safe_push hso).le_three
  | opcodeDrop | opcode2Drop => exact (safe_dstackM (safe_dropN _)).le_three
  | opcodeDup | opcode2Dup | opcode3Dup => exact (safe_dstackM (safe_dupN _)).le_three
  | opcodeOver | opcode2Over => exact (safe_dstackM (safe_overN _)).le_three
  | opcodeRot | opcode2Rot => exact (safe_dstackM (safe_rotN _)).le_three
  | opcodeSwap | opcode2Swap => exact (safe_dstackM (safe_swapN _)).le_three
  | opcodeIfDup => exact safe_opcodeIfDup.le_three
  | opcodeDepth => exact safe_opcodeDepth.le_three
  | opcodeNip => exact (safe_dstackM (safe_nipN 1).discard).le_three
  | opcodePick => exact (safe_popNum.seq fun _ _ => safe_dstackM (safe_copyToTop _)).le_three
  | opcodeRoll => exact (safe_popNum.seq fun _ _ => safe_dstackM (safe_moveToTop _)).le_three
  | opcodeTuck => exact safe_dstackM safe_tuck
  | opcodeSize => exact safe_opcodeSize.le_three
  | opcodeEqual => exact safe_opcodeEqual.le_three
  | opcodeEqualVerify => exact (safe_andVerify op safe_opcodeEqual _).le_three
  | opcode1Add | opcode1Sub | opcodeNegate => exact (safe_unary fun m ⟨_, _⟩ => toInt64_range (by omega)).le_three
  | opcodeAbs =>
    refine Safe.le_three (safe_unary fun m hm => ?_) (by decide)
    obtain ⟨hlow, hhigh⟩ := hm
    split_ifs
    · exact toInt64_range (by omega)
    · omega
  | opcodeNot | opcode0NotEqual => exact (safe_unary fun m _ => fromCond_range _).le_three
  | opcodeAdd | opcodeSub => exact (safe_binary fun v0 v1 ⟨_, _⟩ ⟨_, _⟩ => toInt64_range (by omega)).le_three
  | opcodeBoolAnd | opcodeBoolOr | opcodeNumEqual | opcodeNumNotEqual | opcodeLessThan | opcodeGreaterThan |
      opcodeLessThanOrEqual | opcodeGreaterThanOrEqual => exact safe_comparison
  | opcodeNumEqualVerify => exact safe_andVerify op safe_comparison _
  | opcodeMin | opcodeMax =>
    refine Safe.le_three (safe_binary fun v0 v1 h0 h1 => ?_) (by decide)
    unfold NumRange at h0 h1
    split_ifs <;> omega
  | opcodeWithin => exact safe_opcodeWithin.le_three
  | opcodeSha256 => exact (safe_hashTop crypto.length_sha256).le_three
  | opcodeBlake2b => exact (safe_hashTop crypto.length_blake2b).le_three
  | opcodeCheckSig | opcodeCheckSigECDSA => exact (safe_checkSig _).le_three
  | opcodeCheckSigVerify => exact (safe_andVerify op (safe_checkSig _) _).le_three
  | opcodeCheckMultiSig | opcodeCheckMultiSigECDSA => exact (safe_checkMultiSig _).le_three
  | opcodeCheckMultiSigVerify => exact (safe_andVerify op (safe_checkMultiSig _) _).le_three

end Kaspad.Txscript
