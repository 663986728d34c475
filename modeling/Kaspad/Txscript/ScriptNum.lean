import Kaspad.Lib.GoSlice
import Kaspad.Lib.LittleEndian
import Kaspad.TransactionValidator.InContext

/-! # Numbers of scripts

`error.go` and `scriptnum.go` of `domain/consensus/utils/txscript`.
-/

namespace Kaspad.Txscript
open Lib TransactionValidator LittleEndian List

inductive ErrorCode
  | errInternal
  | errInvalidIndex
  | errEarlyReturn
  | errEmptyStack
  | errEvalFalse
  | errScriptUnfinished
  | errInvalidProgramCounter
  | errScriptTooBig
  | errElementTooBig
  | errTooManyOperations
  | errStackOverflow
  | errInvalidPubKeyCount
  | errInvalidSignatureCount
  | errNumberTooBig
  | errVerify
  | errEqualVerify
  | errNumEqualVerify
  | errCheckSigVerify
  | errCheckMultiSigVerify
  | errDisabledOpcode
  | errReservedOpcode
  | errMalformedPush
  | errInvalidStackOperation
  | errUnbalancedConditional
  | errMinimalData
  | errInvalidSigHashType
  | errSigLength
  | errNotPushOnly
  | errPubKeyFormat
  | errCleanStack
  | errNullFail
  | errUnsatisfiedLockTime
  | errMinimalIf
  deriving DecidableEq, Repr

inductive Failure
  /-- `txscript.Error` -/
  | scriptError (code : ErrorCode) (description : String)
  /-- the error of `CalculateSignatureHash` -/
  | sigHash
  /-- an index or slice expression out of range -/
  | outOfRange
  /-- a loop that is still running -/
  | running
  deriving DecidableEq, Repr

def checked {α : Type} : Option α → Except Failure α
  | some a => .ok a
  | none => .error .outOfRange

def hexDigit (n : ℕ) : Char := if n < 10 then Char.ofNat (48 + n) else Char.ofNat (87 + n)

def hex (bytes : List UInt8) : String :=
  String.ofList (bytes.flatMap fun b => [hexDigit (b.toNat / 16), hexDigit (b.toNat % 16)])

abbrev ScriptNum := ℤ

def maxInt32 : ℤ := 2 ^ 31 - 1

def minInt32 : ℤ := -2 ^ 31

def defaultScriptNumLen : ℕ := 4

def checkMinimalDataEncoding (v : List UInt8) : Except Failure Unit :=
  match v.reverse with
  | [] => .ok ()
  | last :: rest =>
    if last &&& 0x7f = 0 then
      match rest with
      | [] => .error (.scriptError .errMinimalData s!"numeric value encoded as {hex v} is not minimally encoded")
      | second :: _ =>
        if second &&& 0x80 = 0 then
          .error (.scriptError .errMinimalData s!"numeric value encoded as {hex v} is not minimally encoded")
        else .ok ()
    else .ok ()

/-- The loop of `Bytes`, for a number of at most this many bytes. -/
def magnitude : ℕ → ℕ → List UInt8
  | 0, _ => []
  | bytes + 1, n => if n = 0 then [] else UInt8.ofNat n :: magnitude bytes (n / 256)

/-- `scriptNum.Bytes`. The magnitude of the least number is not positive, and there is no last byte then. -/
def ScriptNum.bytes (n : ScriptNum) : Except Failure (List UInt8) :=
  if n = 0 then .ok []
  else
    let isNegative : Bool := n < 0
    let n := if isNegative then toInt64 (-n) else n
    let result := magnitude 8 n.toNat
    match result.getLast? with
    | none => .error .outOfRange
    | some last =>
      if last &&& 0x80 ≠ 0 then .ok (result ++ [if isNegative then 0x80 else 0x00])
      else if isNegative then .ok (result.dropLast ++ [last ||| 0x80])
      else .ok result

def ScriptNum.int32 (n : ScriptNum) : ℤ := if n > maxInt32 then maxInt32 else if n < minInt32 then minInt32 else n

/-- The shifted bytes do not overlap, so the result is their sum, and the sign bit that is masked out is set. -/
def makeScriptNum (v : List UInt8) (scriptNumLen : ℕ) : Except Failure ScriptNum :=
  if v.length > scriptNumLen then
    .error (.scriptError .errNumberTooBig
      s!"numeric value encoded as {hex v} is {v.length} bytes which exceeds the max allowed of {scriptNumLen}")
  else if v.length > 8 then
    .error (.scriptError .errNumberTooBig s!"numeric value encoded as {hex v} is longer than 8 bytes")
  else do
    checkMinimalDataEncoding v
    match v.getLast? with
    | none => pure 0
    | some last =>
      let result : ℤ := decode v
      if last &&& 0x80 ≠ 0 then pure (-(result - 0x80 * 2 ^ (8 * (v.length - 1))))
      else pure result

/-! ## Values and their bytes -/

theorem toInt64_of_lt {n : ℤ} (h : -2 ^ 63 < n) (h' : n < 2 ^ 63) : toInt64 n = n :=
  Int.bmod_eq_of_le_mul_two (by omega) (by omega)

theorem decode_lt (v : List UInt8) : decode v < 2 ^ (8 * v.length) := by
  induction v with
  | nil => simp [decode]
  | cons b v ih =>
    have hb := b.toNat_lt
    simp only [decode, length_cons, Nat.mul_add, pow_add]
    omega

theorem decode_append (init : List UInt8) (last : UInt8) :
    decode (init ++ [last]) = decode init + 2 ^ (8 * init.length) * last.toNat := by
  induction init with
  | nil => simp [decode]
  | cons b init ih =>
    simp only [cons_append, decode, ih, length_cons, Nat.mul_add, pow_add]
    ring

def low (b : UInt8) : UInt8 := b &&& 0x7f

def high (b : UInt8) : Bool := b &&& 0x80 ≠ 0

structure SignBit (b : UInt8) : Prop where
  eq : b = if high b then low b ||| 0x80 else low b
  toNat : b.toNat = (low b).toNat + if high b then 128 else 0
  lt : (low b).toNat < 128
  high_low : high (low b) = false
  set : high b = false → low b = b ∧ low (b ||| 0x80) = b ∧ high (b ||| 0x80)

theorem signBit (b : UInt8) : SignBit b := by
  have htable : ∀ n < 256, let b := UInt8.ofNat n
      (b = if high b then low b ||| 0x80 else low b) ∧ (b.toNat = (low b).toNat + if high b then 128 else 0) ∧
        (low b).toNat < 128 ∧ high (low b) = false ∧
        (high b = false → low b = b ∧ low (b ||| 0x80) = b ∧ high (b ||| 0x80)) := by decide +kernel
  obtain ⟨heq, htoNat, hlt, hlow, hset⟩ := UInt8.ofNat_toNat (x := b) ▸ htable b.toNat b.toNat_lt
  exact ⟨heq, htoNat, hlt, hlow, hset⟩

variable {init : List UInt8} {last : UInt8}

/-- The bytes of a magnitude `init ++ [last]` with its sign. -/
def withSign (neg : Bool) (init : List UInt8) (last : UInt8) : List UInt8 :=
  if high last then init ++ [last, if neg then 0x80 else 0x00] else init ++ [if neg then last ||| 0x80 else last]

def signed (neg : Bool) (n : ℕ) : ℤ := if neg then -n else n

theorem checkMinimalDataEncoding_append (init : List UInt8) (last : UInt8) :
    checkMinimalDataEncoding (init ++ [last]) = .ok () ↔
      low last ≠ 0 ∨ ∃ init' second, init = init' ++ [second] ∧ high second := by
  obtain rfl | ⟨init, second, rfl⟩ := eq_nil_or_concat' init
  · simp [checkMinimalDataEncoding, low]
  · by_cases hlow : last &&& 0x7f = 0 <;> simp [checkMinimalDataEncoding, low, high, hlow]

theorem makeScriptNum_append (hlen : init.length < 8) (hmin : checkMinimalDataEncoding (init ++ [last]) = .ok ()) :
    makeScriptNum (init ++ [last]) 8 =
      .ok (signed (high last) (decode init + 2 ^ (8 * init.length) * (low last).toNat)) := by
  rw [makeScriptNum, if_neg (by simp; omega), if_neg (by simp; omega), hmin, ok_bind, List.getLast?_concat]
  simp only [decode_append, (signBit last).toNat, length_append, length_singleton, Nat.add_sub_cancel]
  by_cases hneg : last &&& 0x80 = 0
  · simp [hneg, high, signed, pure, Except.pure]
  simp [hneg, high, signed, pure, Except.pure]
  ring

theorem magnitude_cons {bytes : ℕ} (b : UInt8) (n : ℕ) (h : 0 < b.toNat + 256 * n) :
    magnitude (bytes + 1) (b.toNat + 256 * n) = b :: magnitude bytes n := by
  have hb := b.toNat_lt
  have hbyte : UInt8.ofNat (b.toNat + 256 * n) = b := by
    apply UInt8.toNat_inj.mp
    rw [UInt8.toNat_ofNat']
    omega
  rw [magnitude, if_neg h.ne', hbyte, show (b.toNat + 256 * n) / 256 = n by omega]

section
variable (neg : Bool) (hlast : last ≠ 0)

theorem length_withSign_le : (withSign neg init last).length ≤ 8 ↔
    init.length < 8 ∧ decode (init ++ [last]) < 2 ^ 63 := by
  have hinit := decode_lt init
  have hbyte := last.toNat_lt
  have hsign := (signBit last).toNat
  have hlow := (signBit last).lt
  have hlength : (withSign neg init last).length = init.length + if high last then 2 else 1 := by
    unfold withSign
    split_ifs <;> simp
  rw [hlength, decode_append]
  obtain hlen | hlen | hlen : init.length ≤ 6 ∨ init.length = 7 ∨ 8 ≤ init.length := by omega
  · have hpow : 2 ^ (8 * init.length) ≤ 2 ^ 48 := Nat.pow_le_pow_right (by decide) (by omega)
    have hmul : 2 ^ (8 * init.length) * last.toNat ≤ 2 ^ 48 * 255 := Nat.mul_le_mul hpow (by omega)
    split_ifs <;> omega
  · rw [hlen] at hinit ⊢
    split_ifs at hsign ⊢ <;> omega
  · split_ifs <;> omega

include hlast

theorem decode_pos (init : List UInt8) : 0 < decode (init ++ [last]) := by
  have hne : last.toNat ≠ 0 := fun h => hlast (UInt8.toNat_inj.mp h)
  rw [decode_append]
  exact Nat.add_pos_right _ (Nat.mul_pos (Nat.two_pow_pos _) (Nat.pos_of_ne_zero hne))

theorem magnitude_decode {bytes : ℕ} (h : init.length < bytes) :
    magnitude bytes (decode (init ++ [last])) = init ++ [last] := by
  obtain ⟨bytes, rfl⟩ : ∃ k, bytes = k + 1 := ⟨bytes - 1, by omega⟩
  induction init generalizing bytes with
  | nil =>
    have hzero : magnitude bytes 0 = [] := by cases bytes <;> rfl
    exact (magnitude_cons _ 0 (decode_pos hlast [])).trans (by rw [hzero]; rfl)
  | cons b init ih =>
    obtain ⟨bytes, rfl⟩ : ∃ k, bytes = k + 1 := ⟨bytes - 1, by simp at h; omega⟩
    exact (magnitude_cons _ _ (decode_pos hlast (b :: init))).trans (congrArg (b :: ·) (ih bytes (by simpa using h)))

theorem bytes_signed (h : (withSign neg init last).length ≤ 8) :
    ScriptNum.bytes (signed neg (decode (init ++ [last]))) = .ok (withSign neg init last) := by
  obtain ⟨hlen, hlt⟩ := (length_withSign_le neg).mp h
  have hpos := decode_pos hlast init
  have hmagnitude := magnitude_decode hlast hlen
  generalize decode (init ++ [last]) = n at hlt hpos hmagnitude
  have hsign : decide (signed neg n < 0) = neg := by cases neg <;> simp [signed, hpos]
  have habs : (if neg then toInt64 (-signed neg n) else signed neg n).toNat = n := by
    have hn : toInt64 n = n := toInt64_of_lt (by omega) (by omega)
    cases neg <;> simp [signed, hn]
  rw [ScriptNum.bytes, if_neg (by cases neg <;> simp [signed] <;> omega)]
  simp only [hsign, habs, hmagnitude, List.getLast?_concat, dropLast_concat, withSign, high]
  cases neg <;> simp <;> split_ifs <;> simp

theorem makeScriptNum_withSign (h : (withSign neg init last).length ≤ 8) :
    makeScriptNum (withSign neg init last) 8 = .ok (signed neg (decode (init ++ [last]))) := by
  unfold withSign at h ⊢
  by_cases hhigh : high last
  · rw [if_pos hhigh, append_cons] at h ⊢
    rw [makeScriptNum_append (by simp at h ⊢; omega)
      ((checkMinimalDataEncoding_append _ _).mpr (.inr ⟨init, last, rfl, hhigh⟩))]
    cases neg <;> simp [high, low]
  obtain ⟨hlow, hset, hsign⟩ := (signBit last).set (by simpa using hhigh)
  rw [if_neg hhigh] at h ⊢
  rw [makeScriptNum_append (by simp at h ⊢; omega) ((checkMinimalDataEncoding_append _ _).mpr (.inl ?_)), decode_append]
  · cases neg <;> simp [*]
  · cases neg <;> simp [*]

end

theorem exists_withSign (hmin : checkMinimalDataEncoding (init ++ [last]) = .ok ()) :
    ∃ neg init' last', last' ≠ 0 ∧ init ++ [last] = withSign neg init' last' := by
  have heq := (signBit last).eq
  by_cases hlow : low last = 0
  · obtain ⟨init', second, rfl, hhigh⟩ :=
      ((checkMinimalDataEncoding_append init last).mp hmin).resolve_left (not_not.mpr hlow)
    refine ⟨high last, init', second, fun h => by simp [h, high] at hhigh, ?_⟩
    rw [hlow] at heq
    rw [withSign, if_pos hhigh, append_cons]
    simpa using heq
  · refine ⟨high last, init, low last, hlow, ?_⟩
    rw [withSign, (signBit last).high_low, if_neg (by simp), ← heq]

theorem exists_decode_eq {bytes n : ℕ} (hn : 0 < n) (h : n < 256 ^ bytes) :
    ∃ init last, last ≠ 0 ∧ init.length < bytes ∧ decode (init ++ [last]) = n := by
  induction bytes generalizing n with
  | zero => omega
  | succ bytes ih =>
    by_cases hsmall : n < 256
    · have hbyte : (UInt8.ofNat n).toNat = n := by simpa using hsmall
      exact ⟨[], UInt8.ofNat n, fun h => by simp [h] at hbyte; omega, by simp, by simpa [decode] using hbyte⟩
    obtain ⟨init, last, hlast, hlen, hdecode⟩ := ih (n := n / 256) (by omega) (by rw [pow_succ] at h; omega)
    refine ⟨UInt8.ofNat n :: init, last, hlast, by simpa using hlen, ?_⟩
    rw [cons_append, decode, hdecode, UInt8.toNat_ofNat']
    omega

theorem exists_bytes {n : ℤ} (h : -2 ^ 63 < n) (h' : n < 2 ^ 63) :
    ∃ b, ScriptNum.bytes n = .ok b ∧ b.length ≤ 8 ∧ makeScriptNum b 8 = .ok n := by
  by_cases hzero : n = 0
  · exact ⟨[], if_pos hzero, by simp, hzero ▸ rfl⟩
  obtain ⟨init, last, hlast, hlen, hdecode⟩ := exists_decode_eq (show 0 < n.natAbs by omega) (show _ < 256 ^ 8 by omega)
  have hle := (length_withSign_le (n < 0)).mpr ⟨hlen, show decode (init ++ [last]) < 2 ^ 63 by omega⟩
  have hn : n = signed (n < 0) (decode (init ++ [last])) := by
    rw [signed, hdecode]
    split_ifs with hneg <;> simp at hneg <;> omega
  rw [hn]
  exact ⟨_, bytes_signed _ hlast hle, hle, makeScriptNum_withSign _ hlast hle⟩

/-- Encoding and decoding are inverse to each other, on the numbers and on the bytes. -/
theorem scriptNum_bytes_inverse :
    (∀ n : ScriptNum, -2 ^ 63 < n → n < 2 ^ 63 → ∃ b, ScriptNum.bytes n = .ok b ∧ makeScriptNum b 8 = .ok n) ∧
      ∀ b n, b.length ≤ 8 → makeScriptNum b 8 = .ok n → ScriptNum.bytes n = .ok b := by
  constructor
  · intro n hlow hhigh
    obtain ⟨b, hb, -, hnum⟩ := exists_bytes hlow hhigh
    exact ⟨b, hb, hnum⟩
  intro b n hlen h
  obtain rfl | ⟨init, last, rfl⟩ := eq_nil_or_concat' b
  · cases h
    rfl
  have hmin : checkMinimalDataEncoding (init ++ [last]) = .ok () := by
    rw [makeScriptNum, if_neg (by omega), if_neg (by omega)] at h
    obtain ⟨⟨⟩, hmin, -⟩ := bind_eq_ok.mp h
    exact hmin
  obtain ⟨neg, init', last', hlast, heq⟩ := exists_withSign hmin
  rw [heq] at h hlen ⊢
  cases (makeScriptNum_withSign _ hlast hlen).symm.trans h
  exact bytes_signed _ hlast hlen

end Kaspad.Txscript
