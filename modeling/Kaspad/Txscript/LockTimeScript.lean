import Kaspad.Txscript.Execute
import Kaspad.Txscript.ScriptBuilder
import Mathlib.Tactic.IntervalCases

/-! # Lock times in scripts

What `AddLockTimeNumber` and `AddSequenceNumber` build is one opcode, whose execution pushes the bytes that the
lock time opcodes read as the number. They do not return for 0.
-/

namespace Kaspad.Txscript
open Lib Prog List LittleEndian ScriptBuilder

/-! ## Pushes -/

/-- One opcode, whose execution pushes the data. -/
def Pushes (script data : List UInt8) : Prop :=
  ∃ pop, parsed script = .ok [pop] ∧ ∀ (crypto : Crypto) (vm : Engine), vm.isBranchExecuting →
    exec (executeOpcode crypto pop) vm = (.ok (), { vm with dstack := vm.dstack ++ [data] })

variable {script data : List UInt8}

theorem pushes_of_call {pop : ParsedOpcode} (hparse : parsed script = .ok [pop]) (hvalue : pop.opcode.value ≤ op16)
    (hlen : pop.data.length ≤ maxScriptElementSize)
    (hmin : pop.opcode.value ≤ opPushData4 → pop.checkMinimalDataPush = .ok ())
    (hcall : ∀ (crypto : Crypto) (vm : Engine), exec (pop.opcode.opfunc.call crypto pop) vm =
      (.ok (), { vm with dstack := vm.dstack ++ [data] })) : Pushes script data := by
  refine ⟨pop, hparse, fun crypto vm hbranch => ?_⟩
  have hallowed : pop.isDisabled = false ∧ pop.alwaysIllegal = false := by
    unfold ParsedOpcode.isDisabled ParsedOpcode.alwaysIllegal
    generalize pop.opcode.value = v at hvalue
    revert v
    decide
  rw [executeOpcode, if_neg (by simp [hallowed]), if_neg (by simp [hallowed]), if_neg (not_lt.mpr hvalue),
    if_neg (not_lt.mpr hlen)]
  rw [exec_bind_ok (exec_get vm), if_neg fun h => h.1 hbranch]
  split_ifs with hchecked
  · rw [hmin hchecked.2.2]
    exact hcall crypto vm
  · exact hcall crypto vm

theorem pushes_small {b : UInt8} (hb : b ≠ 0) (hsmall : b ≤ 16 ∨ b = 0x81) : Pushes (pushOf [b]) [b] := by
  obtain hle | rfl := hsmall
  · obtain ⟨n, hn, rfl⟩ : ∃ n ≤ 16, b = UInt8.ofNat n := ⟨b.toNat, UInt8.le_iff_toNat_le.mp hle, UInt8.ofNat_toNat.symm⟩
    interval_cases n
    · exact absurd rfl hb
    all_goals exact pushes_of_call rfl (by decide) (by decide) (by decide) fun _ _ => rfl
  · exact pushes_of_call rfl (by decide) (by decide) (by decide) fun _ _ => rfl

theorem parsed_data (hdata : data ≠ []) {instr : UInt8} (hop : (opcodeArray instr.toNat).length = data.length + 1) :
    parsed (instr :: data) = .ok [⟨instr, data⟩] := by
  have hpos := length_pos_of_ne_nil hdata
  have hlong : 0 ≤ (data.length : ℤ) + 1 := by omega
  have hparse : parseOpcode (instr :: data) 0 = .ok (⟨instr, data⟩, data.length + 1) := by
    simp [parseOpcode, GoSlice.index, GoSlice.slice, checked, hop, hpos, hlong, pure, Except.pure]
  have hend : parseLoop (instr :: data) data.length (data.length + 1) [⟨instr, data⟩] = ([⟨instr, data⟩], .ok ()) := by
    cases data <;> simp [parseLoop]
  simp [parsed, parseScript, parseLoop, hparse, hend]

theorem pushes_data (hdata : data ≠ []) (hlen : data.length < opPushData1)
    (hlarge : ∀ b, data = [b] → ¬ (b ≤ 16 ∨ b = 0x81)) : Pushes (pushOf data) data := by
  have hpos := length_pos_of_ne_nil hdata
  have hle := Nat.le_of_lt_succ hlen
  have hop : opcodeArray (UInt8.ofNat data.length).toNat =
      ⟨data.length, s!"OP_DATA_{data.length}", data.length + 1, .opcodePushData⟩ := by
    have hne : data.length ≠ op0 := hpos.ne'
    rw [UInt8.toNat_ofNat', Nat.mod_eq_of_lt (by omega), opcodeArray, if_neg hne, if_pos hle]
  have hpush : pushOf data = UInt8.ofNat data.length :: data ∧
      ParsedOpcode.checkMinimalDataPush ⟨UInt8.ofNat data.length, data⟩ = .ok () := by
    unfold pushOf ParsedOpcode.checkMinimalDataPush ParsedOpcode.opcode
    rw [hop]
    obtain ⟨b, rfl⟩ | hlong : (∃ b, data = [b]) ∨ 1 < data.length := by
      rw [← length_eq_one_iff]
      omega
    · have hb := not_or.mp (hlarge b rfl)
      have hzero : b ≠ 0 := fun h => hb.1 (h ▸ by decide)
      simp [hb, hzero, opPushData1]
    · simp [hlen, hle, hpos.ne', hlong.ne']
  rw [hpush.1]
  refine pushes_of_call (parsed_data hdata (by rw [hop])) ?_ ?_ (fun _ => hpush.2) fun crypto vm => ?_
  · rw [ParsedOpcode.opcode, hop]
    exact hle.trans (by decide)
  · exact hle.trans (by decide)
  rw [ParsedOpcode.opcode, hop]
  rfl

/-! ## Trimmed numbers -/

theorem decode_append_replicate (bytes : List UInt8) (k : ℕ) : decode (bytes ++ replicate k 0) = decode bytes := by
  induction k with
  | zero => simp
  | succ k ih =>
    rw [replicate_succ', ← append_assoc, decode_append, ih]
    simp

theorem unpaddedSizeLoop_append {init : List UInt8} {last : UInt8} (hlast : last ≠ 0) {k j : ℕ} (hj : j ≤ k) :
    unpaddedSizeLoop (init ++ [last] ++ replicate k 0) (init.length + 1 + j) = .ok (init.length + 1) := by
  induction j with
  | zero =>
    rw [Nat.add_zero, unpaddedSizeLoop, if_neg]
    simpa using hlast
  | succ j ih =>
    rw [← Nat.add_assoc, unpaddedSizeLoop, if_pos]
    · exact ih (by omega)
    rw [getElem?_append_right (by simp), getElem?_replicate]
    simp
    omega

theorem addLockTimeOrSequence_build {n : UInt64} (hn : n ≠ 0) :
    ∃ bytes, (new.addLockTimeOrSequence n).build = .ok (pushOf bytes) ∧ Pushes (pushOf bytes) bytes ∧
      bytes.length ≤ 8 ∧ decode bytes = n.toNat := by
  have hpos := Nat.pos_of_ne_zero fun h => hn (UInt64.toNat_inj.mp h)
  obtain ⟨init, last, hlast, hlen, hdecode⟩ := exists_decode_eq hpos (show n.toNat < 256 ^ 8 from n.toNat_lt)
  have hlength : (init ++ [last]).length ≤ 8 := length_append ▸ hlen
  obtain ⟨k, hk⟩ := Nat.exists_eq_add_of_le hlen
  have hencode : encode 8 n.toNat = init ++ [last] ++ replicate k 0 := by
    rw [← encode_decode (init ++ [last] ++ replicate k 0), decode_append_replicate, hdecode, hk, length_append,
      length_append, length_replicate]
    rfl
  have hsize : unpaddedSizeLoop (encode 8 n.toNat) 8 = .ok (init.length + 1) := by
    rw [hencode, hk]
    exact unpaddedSizeLoop_append hlast le_rfl
  refine ⟨init ++ [last], ?_, ?_, hlength, hdecode⟩
  · rw [addLockTimeOrSequence, if_neg (by simp [new])]
    simp only [hsize]
    rw [hencode, take_left' (by simp), addData, if_neg (by simp [new]), if_neg, if_neg]
    · rfl
    · exact not_lt.mpr (hlength.trans (by decide))
    have hcanonical : canonicalDataSize (init ++ [last]) ≤ 5 + 8 := by
      unfold canonicalDataSize
      split_ifs <;> omega
    exact not_lt.mpr ((Nat.add_le_add_left hcanonical _).trans (by decide))
  · by_cases hsmall : init = [] ∧ (last ≤ 16 ∨ last = 0x81)
    · rw [hsmall.1]
      exact pushes_small hlast hsmall.2
    refine pushes_data (by simp) (hlength.trans_lt (by decide)) fun b hb hb' => hsmall ?_
    obtain ⟨rfl, rfl⟩ : init = [] ∧ last = b := by simpa [append_eq_singleton_iff] using hb
    exact ⟨rfl, hb'⟩

/-- The opcode pops the number that the builder pushed, except for zero, which no script pushes. -/
theorem lockTimeNumber_script_iff (n : UInt64) : (∃ script bytes, (new.addLockTimeNumber n).build = .ok script ∧
      (new.addSequenceNumber n).build = .ok script ∧ Pushes script bytes ∧
      ∀ (what : String) (vm : Engine), vm.dstack.length ≤ maxStackSize →
        exec (popUint64 what) { vm with dstack := vm.dstack ++ [bytes] } = (.ok n.toNat, vm)) ↔ n ≠ 0 := by
  constructor
  · rintro ⟨script, -, hbuild, -⟩ rfl
    cases hbuild
  intro hn
  obtain ⟨bytes, hbuild, hpushes, hlen, hdecode⟩ := addLockTimeOrSequence_build hn
  refine ⟨_, bytes, hbuild, hbuild, hpushes, fun what vm hvm => ?_⟩
  have hroom := maxStackSize_le
  have hpop : exec (Engine.dstackM Stack.popByteArray) { vm with dstack := vm.dstack ++ [bytes] } = (.ok bytes, vm) := by
    rw [Engine.dstackM, exec_zoom, Stack.exec_popByteArray (by omega)]
  rw [popUint64, exec_bind_ok hpop, if_neg (not_lt.mpr hlen), decode_append_replicate, hdecode]
  rfl

theorem addLockTimeNumber_zero_panics : (new.addLockTimeNumber 0).build = .error .outOfRange := rfl

end Kaspad.Txscript
