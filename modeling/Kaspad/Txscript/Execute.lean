import Kaspad.Txscript.Safety

/-! # Runs of the engine

`NewEngine` and `Execute` on any scripts: every step either fails with an error of its own or gives an engine
within the limits that has fewer opcodes left to execute.
-/

namespace Kaspad.Txscript
open Lib Prog List GoSlice Nat

/-! ## The table -/

theorem opcodeArray_length : ∀ n < 256, 1 ≤ (opcodeArray n).length ∨ (opcodeArray n).length ∈ [-1, -2, -4] := by
  decide +kernel

theorem pushData_value : ∀ n < 256, (opcodeArray n).opfunc = .opcodePushData → (opcodeArray n).value ≤ op16 := by
  decide +kernel

theorem blake2b_opfunc : ∀ n < 256, (opcodeArray n).value = opBlake2b → (opcodeArray n).opfunc = .opcodeBlake2b := by
  decide +kernel

/-! ## Parsing -/

theorem checked_some {α : Type} {o : Option α} {a : α} (h : o = some a) : checked o = .ok a := by
  rw [h, checked]

variable (script : List UInt8)

theorem pushDataLength_ends (off : ℕ) {op : Opcode} (h : op.length ∈ [-1, -2, -4])
    (hoff : off - op.length ≤ script.length) : ∃ l, pushDataLength script off op = .ok l := by
  simp only [mem_cons, not_mem_nil, or_false] at h
  obtain ⟨bytes, hbytes⟩ := exists_slice (l := script) (Int.natCast_nonneg off)
    (show (off : ℤ) ≤ off - op.length by omega) hoff
  exact ⟨_, by rw [pushDataLength, if_pos h, checked_some hbytes]; rfl⟩

theorem parseOpcode_ends {script : List UInt8} {i : ℕ} (h : i < script.length) :
    (∃ pop i', parseOpcode script i = .ok (pop, i') ∧ i < i' ∧ i' ≤ script.length) ∨
      ∃ e, parseOpcode script i = .error e ∧ e.Expected := by
  obtain ⟨instr, hinstr⟩ := exists_index (l := script) (Int.natCast_nonneg i) (by omega)
  have htable := opcodeArray_length instr.toNat instr.toNat_lt
  unfold parseOpcode
  simp only [checked_some hinstr, ok_bind]
  generalize opcodeArray instr.toNat = op at htable
  have hdrop (low : ℕ) (hlow : low ≤ script.length) :
      ∃ remaining, GoSlice.slice script low script.length = some remaining ∧
        (remaining.length : ℤ) = script.length - low := by
    obtain ⟨remaining, hremaining⟩ := exists_slice (l := script) (Int.natCast_nonneg low)
      (show (low : ℤ) ≤ script.length by omega) le_rfl
    exact ⟨remaining, hremaining, length_of_slice hremaining⟩
  split_ifs with hone hmore hneg
  · exact .inl ⟨_, _, rfl, lt_succ_self i, h⟩
  · obtain ⟨remaining, hremaining, hlen⟩ := hdrop i h.le
    simp only [checked_some hremaining, ok_bind]
    split_ifs with hshort
    · exact .inr ⟨_, rfl, trivial⟩
    obtain ⟨data, hdata⟩ := exists_slice (l := script) (show (0 : ℤ) ≤ i + 1 by omega)
      (show (i : ℤ) + 1 ≤ i + op.length by omega) (by omega)
    simp only [checked_some hdata, ok_bind]
    exact .inl ⟨_, _, rfl, by omega, by omega⟩
  · have hlength := htable.resolve_left (by omega)
    obtain ⟨remaining, hremaining, hlen⟩ := hdrop (i + 1) h
    simp only [checked_some hremaining, ok_bind]
    split_ifs with hshort
    · exact .inr ⟨_, rfl, trivial⟩
    obtain ⟨l, hl⟩ := pushDataLength_ends script (i + 1) hlength (by push_cast at hlen ⊢; omega)
    obtain ⟨rest, hrest, hrestLen⟩ := hdrop (i + 1 + (-op.length).toNat) (by push_cast at hlen; omega)
    simp only [hl, checked_some hrest, ok_bind]
    split_ifs with hmany
    · exact .inr ⟨_, rfl, trivial⟩
    obtain ⟨data, hdata⟩ := exists_slice (l := script)
      (show (0 : ℤ) ≤ ((i + 1 + (-op.length).toNat : ℕ) : ℤ) by omega)
      (show ((i + 1 + (-op.length).toNat : ℕ) : ℤ) ≤ (i + 1 + (-op.length).toNat : ℕ) + l by omega) (by omega)
    simp only [checked_some hdata, ok_bind]
    exact .inl ⟨_, _, rfl, by omega, by omega⟩
  · rcases htable with htable | htable
    · omega
    simp only [mem_cons, not_mem_nil, or_false] at htable
    omega

theorem parseLoop_ends {script : List UInt8} (rounds i : ℕ) (retScript : List ParsedOpcode)
    (h : script.length ≤ i + rounds) :
    (parseLoop script rounds i retScript).1.length ≤ retScript.length + (script.length - i) ∧
      ∀ e, (parseLoop script rounds i retScript).2 = .error e → e.Expected := by
  induction rounds generalizing i retScript with
  | zero =>
    unfold parseLoop
    rw [if_pos (by omega)]
    exact ⟨le_add_right _ _, fun e he => by cases he⟩
  | succ rounds ih =>
    unfold parseLoop
    split_ifs with hend
    · exact ⟨le_add_right _ _, fun e he => by cases he⟩
    rcases parseOpcode_ends (not_le.mp hend) with ⟨pop, i', hpop, hlt, hle⟩ | ⟨e, he, hexpected⟩
    · obtain ⟨hlen, herr⟩ := ih i' (retScript ++ [pop]) (by omega)
      simp only [hpop]
      refine ⟨hlen.trans ?_, herr⟩
      rw [length_append, length_singleton]
      omega
    · simp only [he]
      exact ⟨le_add_right _ _, fun e' he' => by cases he'; exact hexpected⟩

theorem parsed_ends : (∃ pops, parsed script = .ok pops ∧ pops.length ≤ script.length) ∨
      ∃ e, parsed script = .error e ∧ e.Expected := by
  obtain ⟨hlen, herr⟩ := parseLoop_ends script.length 0 [] (show script.length ≤ 0 + script.length by omega)
  unfold parsed parseScript
  rcases hloop : parseLoop script script.length 0 [] with ⟨pops, e | u⟩ <;> rw [hloop] at hlen herr
  · exact .inr ⟨e, rfl, herr e rfl⟩
  · exact .inl ⟨pops, rfl, by simpa using hlen⟩

theorem checkMinimalDataPush_expected (pop : ParsedOpcode) (e : Failure) (h : pop.checkMinimalDataPush = .error e) :
    e.Expected := by
  unfold ParsedOpcode.checkMinimalDataPush ParsedOpcode.notMinimal at h
  simp only at h
  split_ifs at h <;> cases h <;> trivial

theorem safe_executeOpcode (crypto : Crypto) (op : ParsedOpcode) :
    Harmless 3 op.opcode.opfunc.maxVerifications (executeOpcode crypto op) := by
  have htable := pushData_value op.instr.toNat op.instr.toNat_lt
  have hdata (h : ¬ op.opcode.value > op16 → ¬ op.data.length > maxScriptElementSize)
      (hf : op.opcode.opfunc = .opcodePushData) : Stack.ShortElement op.data :=
    not_lt.mp (h (not_lt.mpr (htable hf)))
  unfold executeOpcode
  split_ifs with hdisabled hillegal hvalue hlong
  · exact safe_fail _ _
  · exact safe_fail _ _
  on_goal 1 => refine (safe_addOps 1).seq fun _ _ => ?_
  on_goal 2 => exact Safe.seq (Q := fun _ => False) (safe_fail _ _) fun _ h => h.elim
  all_goals
    have hcall := safe_call crypto op (hdata (by tauto))
    refine safe_get_bind fun vm => ?_
    split_ifs
    · exact safe_pure trivial
    · have hminimal := safe_ofExcept (fun _ _ => trivial) (checkMinimalDataPush_expected op)
      exact hminimal.seq fun _ _ => hcall
    · exact hcall

/-! ## Whole stacks -/

namespace Stack
variable {s : Stack}

theorem exec_popByteArray {so : List UInt8} (h : s.length < maxInt32) :
    exec popByteArray (s ++ [so]) = (.ok so, s) := by
  have hdepth : depth (s ++ [so]) = s.length + 1 := by
    rw [depth, length_append, length_singleton, toInt32_natCast (by push_cast; omega)]
    rfl
  have hindex : GoSlice.index (s ++ [so]) (s.length + 1 - 0 - 1) = some so := by
    rw [show (s.length : ℤ) + 1 - 0 - 1 = (s.length : ℕ) by omega, index_natCast]
    simp
  have hrest : nipped (s ++ [so]) (s.length + 1) 0 = .ok s := by
    rw [nipped, if_pos rfl, show (s.length : ℤ) + 1 - 1 = (s.length : ℕ) by omega, GoSlice.slice, if_pos (by simp)]
    simp [checked]
  simp only [popByteArray, nipN, exec_bind, exec_get, hdepth]
  rw [if_neg (by omega)]
  simp only [exec_bind, exec_ofExcept, hindex, hrest, checked, exec_set, exec_pure]

theorem exec_popByteArray_nil (so : List UInt8) (s : Stack) : exec popByteArray [] ≠ (.ok so, s) := by
  have hdepth : depth [] = 0 := toInt32_natCast (n := 0) (by decide)
  simp only [popByteArray, nipN, exec_bind, exec_get, hdepth]
  rw [if_pos (by decide)]
  exact fun h => by cases congrArg Prod.fst h

theorem exec_times_pop (h : s.length ≤ maxInt32) : exec (times (discard popByteArray) s.length) s = (.ok (), []) := by
  induction s using List.reverseRecOn with
  | nil => rfl
  | append_singleton s so ih =>
    rw [length_append, length_singleton] at h ⊢
    have hle : (s.length : ℤ) ≤ maxInt32 := by omega
    rw [times, exec_bind_ok (exec_discard_ok (exec_popByteArray (by omega)))]
    exact ih hle

theorem exec_dropAll (h : s.length ≤ maxInt32) : exec dropAll s = (.ok (), []) := by
  have hdepth : depth s = s.length := toInt32_natCast h
  simp only [dropAll, exec_bind, exec_get, hdepth, ignoreError, exec_tryCatch, dropN]
  cases s with
  | nil => rfl
  | cons so s =>
    rw [if_neg (by simp), Int.toNat_natCast, exec_times_pop h]

variable (data : List (List UInt8))

theorem exec_forM_push (s : Stack) : exec (data.forM pushByteArray) s = (.ok ⟨⟩, s ++ data) := by
  induction data generalizing s with
  | nil => simp
  | cons so data ih =>
    have hcons : (so :: data).forM pushByteArray = pushByteArray so >>= fun _ => data.forM pushByteArray := rfl
    rw [hcons, exec_bind, pushByteArray, exec_modify]
    simp only [ih, append_assoc, singleton_append]

theorem exec_setStack (h : s.length ≤ maxInt32) : exec (setStack data) s = (.ok (), data) := by
  rw [setStack, exec_bind_ok (exec_dropAll h)]
  exact exec_forM_push data []

theorem getStack_eq (h : s.length ≤ maxInt32) : getStack s = s := by
  have hdepth : depth s = s.length := toInt32_natCast h
  unfold getStack
  rw [hdepth, Int.toNat_natCast]
  refine ext_getElem (by simp) fun i hi hi' => ?_
  simp only [getElem_map, getElem_reverse, getElem_range, length_range]
  have hindex : GoSlice.index s ((s.length : ℤ) - ((s.length - 1 - i : ℕ) : ℤ) - 1) = some s[i] := by
    rw [show (s.length : ℤ) - ((s.length - 1 - i : ℕ) : ℤ) - 1 = (i : ℕ) by omega, index_natCast,
      List.getElem?_eq_getElem]
  simp only [peekByteArray, exec_bind, exec_get, hdepth]
  rw [if_neg (by omega), exec_ofExcept, hindex]
  rfl

end Stack

/-! ## Runs from a state -/

/-- From the engine `vm` the call returns a value and an engine with `Q`, or fails with an error of its own. -/
structure RunsTo {α : Type} (m : Run α) (vm : Engine) (Q : α → Engine → Prop) : Prop where
  ok : ∀ a vm', exec m vm = (.ok a, vm') → Q a vm'
  error : ∀ e vm', exec m vm = (.error e, vm') → e.Expected

section
variable {α β : Type} {m : Run α} {vm : Engine} {Q : α → Engine → Prop} {vm' : Engine}

theorem runsTo_of_ok {a : α} (h : exec m vm = (.ok a, vm')) (hQ : Q a vm') : RunsTo m vm Q := by
  constructor
  · rintro a' vm'' h'
    cases h.symm.trans h'
    exact hQ
  · intro e vm'' h'
    cases h.symm.trans h'

theorem runsTo_ofExcept {r : Except Failure α} (hok : ∀ a, r = .ok a → Q a vm) (herror : ∀ e, r = .error e → e.Expected) :
    RunsTo (ofExcept r) vm Q := by
  constructor
  · intro a vm' h
    rw [exec_ofExcept] at h
    have hvm : vm = vm' := congrArg Prod.snd h
    exact hvm ▸ hok a (congrArg Prod.fst h)
  · intro e vm' h
    rw [exec_ofExcept] at h
    exact herror e (congrArg Prod.fst h)

variable {R : β → Engine → Prop}

theorem runsTo_bind_of_ok {f : α → Run β} {a : α} (hm : exec m vm = (.ok a, vm'))
    (h : RunsTo (f a) vm' R) : RunsTo (m >>= f) vm R := by
  constructor
  · intro b vm'' hb
    rw [exec_bind_ok hm] at hb
    exact h.ok b vm'' hb
  intro e vm'' he
  rw [exec_bind_ok hm] at he
  exact h.error e vm'' he

theorem runsTo_get_bind {f : Engine → Run β} (h : RunsTo (f vm) vm R) : RunsTo (get >>= f) vm R :=
  runsTo_bind_of_ok (exec_get vm) h

theorem runsTo_modify_bind {g : Engine → Engine} {f : PUnit → Run β} (h : RunsTo (f ⟨⟩) (g vm) R) :
    RunsTo (modify g >>= f) vm R :=
  runsTo_bind_of_ok (exec_modify g vm) h

theorem runsTo_checked_bind {γ : Type} {o : Option γ} {c : γ} {f : γ → Run β} (ho : o = some c)
    (h : RunsTo (f c) vm R) : RunsTo (ofExcept (checked o) >>= f) vm R :=
  runsTo_bind_of_ok (by rw [exec_ofExcept, checked_some ho]) h

theorem RunsTo.mono {Q' : α → Engine → Prop} (h : RunsTo m vm Q) (hQ : ∀ a vm', Q a vm' → Q' a vm') :
    RunsTo m vm Q' :=
  ⟨fun a vm' ha => hQ a vm' (h.ok a vm' ha), h.error⟩

theorem runsTo_of_ends {P : α → Engine → Prop} {E : Failure → Engine → Prop} (h : Ends P E (exec m vm))
    (hP : ∀ a vm', P a vm' → Q a vm') (hE : ∀ e vm', E e vm' → e.Expected) : RunsTo m vm Q := by
  constructor
  · intro a vm' ha
    rw [ha] at h
    exact hP a vm' h
  intro e vm' he
  rw [he] at h
  exact hE e vm' h

theorem runsTo_fail {code : ErrorCode} {description : String} : RunsTo (Engine.fail code description) vm Q := by
  constructor
  · intro a vm' h
    cases h
  intro e vm' h
  cases h
  trivial

theorem RunsTo.bind {k : α → Run β} (h : RunsTo m vm Q) (hk : ∀ a vm', Q a vm' → RunsTo (k a) vm' R) :
    RunsTo (m >>= k) vm R := by
  constructor
  · intro b vm'' hb
    obtain ⟨a, vm', ha, hka⟩ := exec_bind_eq_ok hb
    exact (hk a vm' (h.ok a vm' ha)).ok b vm'' hka
  intro e vm'' he
  rw [exec_bind] at he
  rcases hm : exec m vm with ⟨e' | a, vm'⟩ <;> rw [hm] at he
  · cases he
    exact h.error e vm'' hm
  · exact (hk a vm' (h.ok a vm' hm)).error e vm'' he

theorem Safe.runsTo {k v : ℕ} {P : α → Prop} (h : Safe k v m P) (hvm : vm.Ready k) :
    RunsTo m vm fun a vm' => P a ∧ Effect k v vm vm' :=
  runsTo_of_ends (h.ends vm hvm) (fun _ _ h => h) fun _ _ h => h.1

end

/-! ## One step -/

structure Engine.Inv (vm : Engine) : Prop where
  combined : vm.combined ≤ maxStackSize
  short : vm.Short
  nonneg : 0 ≤ vm.txIdx
  input : vm.txIdx < vm.tx.inputs.length
  numOps : vm.numOps ≤ maxOpsPerScript
  savedShort : Stack.Short vm.savedFirstStack
  savedLength : vm.savedFirstStack.length ≤ maxStackSize
  scriptHash : vm.isP2SH → vm.scriptIdx ≤ 1 → ∃ s0 s1, vm.scripts = [s0, s1] ∧ isScriptHash s1
  saved : vm.isP2SH → vm.scriptIdx = 1 →
    vm.savedFirstStack ≠ [] ∨ (vm.scriptOff = 0 ∧ vm.dstack = [] ∧ vm.condStack = [])

def Engine.opcodesFrom (vm : Engine) (idx : ℕ) : ℕ :=
  ((vm.scripts.drop idx).map List.length).sum + if vm.isP2SH ∧ idx ≤ 1 then maxScriptElementSize else 0

def Engine.opcodesAfter (vm : Engine) : ℕ :=
  ((vm.scripts.drop (vm.scriptIdx + 1)).map List.length).sum +
    if vm.isP2SH ∧ vm.scriptIdx ≤ 1 then maxScriptElementSize else 0

def Engine.left (vm : Engine) : ℕ := vm.opcodesFrom vm.scriptIdx - vm.scriptOff

variable {vm : Engine}

theorem Engine.Inv.ready (h : vm.Inv) : vm.Ready 3 :=
  ⟨by have := h.combined; unfold maxStackSize at this; unfold maxInt32; omega, h.short, h.nonneg, h.input⟩

theorem maxStackSize_le : (maxStackSize : ℤ) + 3 ≤ maxInt32 := by decide

section
variable (crypto : Crypto) {vm : Engine} {script : List ParsedOpcode} {op : ParsedOpcode}

open Engine Stack

def afterOpcode : Run Bool := do
  checkStackSize
  let vm ← get
  let script ← ofExcept (checked (GoSlice.index vm.scripts vm.scriptIdx))
  if vm.scriptOff ≥ script.length then endScript else pure false

variable (hscript : vm.scripts[vm.scriptIdx]? = some script)
include hscript

theorem exec_script :
    exec (ofExcept (checked (GoSlice.index vm.scripts vm.scriptIdx)) : Run _) vm = (.ok script, vm) := by
  rw [exec_ofExcept, index_natCast, checked_some hscript]

theorem exec_validPC (hoff : vm.scriptOff < script.length) : exec validPC vm = (.ok (), vm) := by
  have hidx := (List.getElem?_eq_some_iff.mp hscript).1
  rw [validPC, exec_bind, exec_get]
  simp only
  rw [if_neg (by omega), exec_bind_ok (exec_script hscript), if_neg (by omega), exec_pure]

theorem exec_step (hop : script[vm.scriptOff]? = some op) : exec (step crypto) vm =
      exec (executeOpcode crypto op >>= fun _ => afterOpcode) { vm with scriptOff := vm.scriptOff + 1 } := by
  have hoff := (List.getElem?_eq_some_iff.mp hop).1
  have hopcode : exec (ofExcept (checked (GoSlice.index script vm.scriptOff)) : Run _) vm = (.ok op, vm) := by
    rw [exec_ofExcept, index_natCast, checked_some hop]
  rw [step, exec_bind_ok (exec_validPC hscript hoff), exec_bind_ok (exec_get vm),
    exec_bind_ok (exec_script hscript), exec_bind_ok hopcode, exec_bind_ok (exec_modify _ vm)]
  rfl

omit hscript

theorem step_ends_of_none (h : ∀ script, vm.scripts[vm.scriptIdx]? = some script → script.length ≤ vm.scriptOff) :
    Ends (fun _ _ => False) (fun e vm' => e.Expected ∧ vm' = vm) (exec (step crypto) vm) := by
  have hpc : Ends (fun _ _ => False) (fun e vm' => e.Expected ∧ vm' = vm) (exec validPC vm) := by
    rw [validPC, exec_bind, exec_get]
    simp only
    split_ifs with hidx
    · exact ⟨trivial, rfl⟩
    obtain ⟨script, hscript⟩ : ∃ script, vm.scripts[vm.scriptIdx]? = some script :=
      ⟨_, List.getElem?_eq_getElem (not_le.mp hidx)⟩
    rw [exec_bind_ok (exec_script hscript), if_pos (h script hscript)]
    exact ⟨trivial, rfl⟩
  exact ends_bind hpc fun _ _ h => h.elim

theorem executeOpcode_blake2b (hop : op.opcode.value = opBlake2b) (hstack : vm.dstack = []) (hcond : vm.condStack = [])
    (u : Unit) (vm' : Engine) : exec (executeOpcode crypto op) vm ≠ (.ok u, vm') := by
  have hfunc : op.opcode.opfunc = .opcodeBlake2b := blake2b_opfunc op.instr.toNat op.instr.toNat_lt hop
  unfold executeOpcode
  rw [if_neg (by rw [ParsedOpcode.isDisabled, hop]; decide), if_neg (by rw [ParsedOpcode.alwaysIllegal, hop]; decide),
    if_pos (by rw [hop]; decide)]
  intro h
  obtain ⟨_, vm₁, hadd, hrest⟩ := exec_bind_eq_ok h
  have hsame : vm₁.dstack = [] ∧ vm₁.condStack = [] := by
    simp only [addOps, exec_bind, exec_modify, exec_get] at hadd
    split_ifs at hadd
    · cases congrArg Prod.fst hadd
    have hvm₁ : _ = vm₁ := congrArg Prod.snd hadd
    rw [← hvm₁]
    exact ⟨hstack, hcond⟩
  have hexecuting : vm₁.isBranchExecuting = true := by
    rw [isBranchExecuting, hsame.2]
    rfl
  rw [exec_bind_ok (exec_get vm₁)] at hrest
  simp only [hexecuting, hop, hfunc] at hrest
  rw [if_neg (by simp), if_neg (by decide)] at hrest
  obtain ⟨so, vm₂, hpop, -⟩ := exec_bind_eq_ok (show exec (hashTop crypto.blake2b) vm₁ = (.ok u, vm') from hrest)
  rw [dstackM, exec_zoom, hsame.1] at hpop
  have hfst : (exec popByteArray []).1 = .ok so := congrArg Prod.fst hpop
  exact exec_popByteArray_nil so _ (Prod.ext hfst rfl)

theorem runsTo_checkStackSize (h : vm.combined ≤ maxInt32) :
    RunsTo checkStackSize vm fun _ vm' => vm = vm' ∧ vm.combined ≤ maxStackSize := by
  have hcombined : depth vm.dstack + depth vm.astack = vm.combined := by
    unfold combined at h ⊢
    rw [depth, depth, toInt32_natCast (by omega), toInt32_natCast (by omega)]
    rfl
  refine runsTo_get_bind ?_
  simp only [hcombined]
  split_ifs with hlarge
  · exact runsTo_fail
  · exact runsTo_of_ok (exec_pure _ _) ⟨rfl, by omega⟩

structure Ended (vm : Engine) : Prop where
  combined : vm.combined ≤ maxStackSize
  short : vm.Short
  nonneg : 0 ≤ vm.txIdx
  input : vm.txIdx < vm.tx.inputs.length
  savedShort : Stack.Short vm.savedFirstStack
  savedLength : vm.savedFirstStack.length ≤ maxStackSize
  scriptHash : vm.isP2SH → vm.scriptIdx ≤ 1 → ∃ s0 s1, vm.scripts = [s0, s1] ∧ isScriptHash s1
  saved : vm.isP2SH → vm.scriptIdx = 1 → vm.savedFirstStack ≠ []

structure Started (limit : ℕ) (vm : Engine) : Prop extends vm.Inv where
  idx : 1 ≤ vm.scriptIdx
  off : vm.scriptOff = 0
  left : vm.opcodesFrom vm.scriptIdx ≤ limit

theorem safe_checkErrorCondition (finalScript : Bool) : Harmless 0 0 (checkErrorCondition finalScript) := by
  refine safe_get_bind fun vm => ?_
  split_ifs
  · exact safe_fail _ _
  · exact safe_fail _ _
  · exact safe_fail _ _
  refine (safe_dstackM safe_popBool).seq fun v _ => ?_
  split_ifs
  · exact safe_pure trivial
  · exact safe_fail _ _

variable {vm' : Engine} {u : Unit} {rounds : ℕ}

theorem dstackM_astack {α : Type} {m : Prog Stack Failure α} {a : α}
    (h : exec (dstackM m) vm = (.ok a, vm')) : vm'.astack = vm.astack := by
  rw [dstackM, exec_zoom] at h
  have hvm' : _ = vm' := congrArg Prod.snd h
  rw [← hvm']

theorem checkErrorCondition_astack {finalScript : Bool}
    (h : exec (checkErrorCondition finalScript) vm = (.ok u, vm')) : vm'.astack = vm.astack := by
  rw [checkErrorCondition, exec_bind_ok (exec_get vm)] at h
  split_ifs at h
  · cases h
  · cases h
  · cases h
  obtain ⟨v, vm₁, hpop, hrest⟩ := exec_bind_eq_ok h
  split_ifs at hrest
  · have hvm' : vm₁ = vm' := congrArg Prod.snd hrest
    rw [← hvm', dstackM_astack hpop]
  · cases hrest

theorem runsTo_enterRedeemScript (h : Ended vm) (hp2sh : vm.isP2SH) (hidx : vm.scriptIdx = 1) (hoff : vm.scriptOff = 0)
    (hastack : vm.astack = []) (hnumOps : vm.numOps ≤ maxOpsPerScript) :
    RunsTo enterRedeemScript vm fun _ vm' => Started maxScriptElementSize vm' := by
  have hroom := maxStackSize_le
  have hcombined := h.combined
  refine runsTo_modify_bind ?_
  have hready : Ready { vm with scriptIdx := vm.scriptIdx + 1 } 0 :=
    ⟨by unfold combined at hcombined ⊢; push_cast; omega, ⟨h.short.dstack, h.short.astack⟩, h.nonneg, h.input⟩
  have hcondition := (safe_checkErrorCondition false).runsTo hready
  refine RunsTo.bind (Q := fun _ vm' => Effect 0 0 { vm with scriptIdx := vm.scriptIdx + 1 } vm' ∧ vm'.astack = [])
    ⟨fun a vm' ha => ⟨(hcondition.ok a vm' ha).2, (checkErrorCondition_astack ha).trans hastack⟩, hcondition.error⟩ ?_
  rintro _ vm₁ ⟨heffect, hastack₁⟩
  have hsaved := heffect.savedFirstStack
  have hpos := length_pos_iff.mpr (h.saved hp2sh hidx)
  obtain ⟨script, hscript⟩ := exists_index (l := vm.savedFirstStack)
    (i := (vm.savedFirstStack.length : ℤ) - 1) (by omega) (by omega)
  obtain ⟨rest, hrest⟩ := exists_slice (l := vm.savedFirstStack) le_rfl
    (show (0 : ℤ) ≤ vm.savedFirstStack.length - 1 by omega) (by omega)
  have hrestLen := length_of_slice hrest
  have hscriptLen := h.savedShort script (mem_of_index hscript)
  refine runsTo_get_bind ?_
  simp only [hsaved]
  refine runsTo_checked_bind hscript ?_
  have hparsed : RunsTo (ofExcept (parsed script)) vm₁ fun pops vm' =>
      pops.length ≤ maxScriptElementSize ∧ vm₁ = vm' := by
    rcases parsed_ends script with ⟨pops, hpops, hlen⟩ | ⟨e, he, hexpected⟩
    · exact runsTo_ofExcept (fun a ha => ⟨by cases hpops.symm.trans ha; omega, rfl⟩)
        fun e he => by cases hpops.symm.trans he
    exact runsTo_ofExcept (fun a ha => by cases he.symm.trans ha)
      fun e' he' => by cases he.symm.trans he'; exact hexpected
  refine hparsed.bind ?_
  rintro pops _ ⟨hpopsLen, rfl⟩
  refine runsTo_modify_bind (runsTo_checked_bind hrest ?_)
  have hlen : (vm₁.dstack.length : ℤ) ≤ maxInt32 := by
    have hcombined' := heffect.combined
    unfold combined at hcombined hcombined'
    simp only at hcombined'
    omega
  have hset : exec (dstackM (setStack rest)) { vm₁ with scripts := vm₁.scripts ++ [pops] } =
      (.ok (), { vm₁ with scripts := vm₁.scripts ++ [pops], dstack := rest }) := by
    rw [dstackM, exec_zoom, exec_setStack rest hlen]
  refine runsTo_of_ok hset ?_
  obtain ⟨s0, s1, hscripts, -⟩ := h.scriptHash hp2sh hidx.le
  have hidx₁ : vm₁.scriptIdx = 2 := heffect.scriptIdx.trans (by simp [hidx])
  have hoff₁ := heffect.scriptOff.trans hoff
  have hscripts₁ := heffect.scripts.trans hscripts
  have hnumOps₁ := heffect.numOps
  refine ⟨⟨?_, ⟨fun so hso => ?_, ?_⟩, ?_, ?_, ?_, ?_, ?_, fun _ hle => ?_, fun _ heq => ?_⟩, ?_, hoff₁, ?_⟩
  · have hsavedLength := h.savedLength
    simp only [combined, hastack₁, length_nil]
    omega
  · exact h.savedShort so (mem_of_slice hrest so hso)
  · simp only [hastack₁]
    exact fun so hso => absurd hso (not_mem_nil)
  · exact heffect.txIdx ▸ h.nonneg
  · exact heffect.txIdx ▸ heffect.tx ▸ h.input
  · exact hnumOps₁.trans (max_le hnumOps le_rfl)
  · exact hsaved ▸ h.savedShort
  · exact hsaved ▸ h.savedLength
  · simp only [hidx₁] at hle
    omega
  · simp only [hidx₁] at heq
    omega
  · simp only [hidx₁]
    omega
  · simp only [opcodesFrom, hidx₁, hscripts₁]
    simpa using hpopsLen

theorem runsTo_nextScript (h : Ended vm) (hoff : vm.scriptOff = 0) (hastack : vm.astack = [])
    (hcond : vm.condStack = []) (hnumOps : vm.numOps ≤ maxOpsPerScript) :
    RunsTo nextScript vm fun _ vm' => Started vm.opcodesAfter vm' := by
  have hroom := maxStackSize_le
  refine runsTo_get_bind ?_
  split_ifs with hfirst hsecond
  · -- the stack of the first script is kept for the redeem script
    obtain ⟨hidx, hp2sh⟩ := hfirst
    have hlen := (le_add_right _ _).trans h.combined
    have hsaved : getStack vm.dstack = vm.dstack := getStack_eq (by omega)
    refine runsTo_of_ok (exec_modify _ vm) ⟨⟨h.combined, ⟨h.short.dstack, h.short.astack⟩, h.nonneg, h.input, hnumOps,
      ?_, ?_, fun _ _ => h.scriptHash hp2sh (by omega), fun _ _ => ?_⟩, ?_, hoff, ?_⟩
    · simpa only [hsaved] using h.short.dstack
    · simpa only [hsaved] using hlen
    · simp only [hsaved]
      by_cases hempty : vm.dstack = []
      · exact .inr ⟨hoff, hempty, hcond⟩
      · exact .inl hempty
    · simp only
      omega
    · simp [opcodesFrom, opcodesAfter, hidx]
  · obtain ⟨hidx, hp2sh⟩ := hsecond
    have hlimit : maxScriptElementSize ≤ vm.opcodesAfter := by
      rw [opcodesAfter, if_pos ⟨hp2sh, hidx.le⟩]
      exact le_add_left _ _
    exact (runsTo_enterRedeemScript h hp2sh hidx hoff hastack hnumOps).mono fun _ _ hstarted =>
      { hstarted with left := hstarted.left.trans hlimit }
  · refine runsTo_of_ok (exec_modify _ vm) ⟨⟨h.combined, ⟨h.short.dstack, h.short.astack⟩, h.nonneg, h.input, hnumOps,
      h.savedShort, h.savedLength, fun hp2sh hle => ?_, fun hp2sh heq => ?_⟩, ?_, hoff, ?_⟩
    · exact absurd ⟨by simp only at hle; omega, hp2sh⟩ hfirst
    · exact absurd ⟨by simp only at heq; omega, hp2sh⟩ hfirst
    · simp only
      omega
    simp only [opcodesFrom, opcodesAfter]
    refine Nat.add_le_add_left ?_ _
    split_ifs with hnext hnow
    · exact le_rfl
    · exact absurd ⟨hnext.1, by omega⟩ hnow
    · exact zero_le _
    · exact le_rfl

theorem runsTo_skipEmptyScript {limit : ℕ} (h : Started limit vm) :
    RunsTo skipEmptyScript vm fun _ vm' => Started limit vm' := by
  refine runsTo_get_bind ?_
  split_ifs with hidx
  · obtain ⟨script, hscript⟩ : ∃ script, vm.scripts[vm.scriptIdx]? = some script :=
      ⟨_, List.getElem?_eq_getElem hidx⟩
    refine runsTo_checked_bind (by rw [index_natCast]; exact hscript) ?_
    have hone := h.idx
    split_ifs with hempty
    · have hdrop : vm.scripts.drop vm.scriptIdx = script :: vm.scripts.drop (vm.scriptIdx + 1) := by
        rw [drop_eq_getElem_cons hidx, ← (List.getElem?_eq_some_iff.mp hscript).2]
      refine runsTo_of_ok (exec_modify _ vm) ⟨⟨h.combined, ⟨h.short.dstack, h.short.astack⟩, h.nonneg, h.input,
        h.numOps, h.savedShort, h.savedLength, fun hp2sh hle => ?_, fun hp2sh heq => ?_⟩, ?_, h.off, ?_⟩
      · simp only at hle
        omega
      · simp only at heq
        omega
      · simp only
        omega
      refine le_trans ?_ h.left
      simp only [opcodesFrom, hdrop, map_cons, sum_cons]
      rw [if_neg (by omega)]
      omega
    · exact runsTo_of_ok (exec_pure _ vm) h
  · exact runsTo_of_ok (exec_pure _ vm) h

theorem runsTo_endScript (h : Ended vm) :
    RunsTo endScript vm fun done vm' => vm'.Inv ∧ (done = false → vm'.left ≤ vm.opcodesAfter) := by
  have hroom := maxStackSize_le
  refine runsTo_get_bind ?_
  split_ifs with hcond
  · exact runsTo_fail
  have hcond := eq_nil_of_length_eq_zero (not_not.mp hcond)
  have hlen : (vm.astack.length : ℤ) ≤ maxInt32 := by
    have hcombined := h.combined
    unfold combined at hcombined
    omega
  have hdrop : exec (astackM dropAll) vm = (.ok (), { vm with astack := [] }) := by
    rw [astackM, exec_zoom, exec_dropAll hlen]
  refine RunsTo.bind (runsTo_of_ok (Q := fun _ vm' => vm' = { vm with astack := [] }) hdrop rfl) ?_
  rintro _ _ rfl
  refine runsTo_modify_bind ?_
  have hended : Ended { vm with astack := [], numOps := 0, scriptOff := 0 } :=
    ⟨le_trans (by simp [combined]) h.combined, ⟨h.short.dstack, fun so hso => absurd hso not_mem_nil⟩, h.nonneg,
      h.input, h.savedShort, h.savedLength, h.scriptHash, h.saved⟩
  refine (runsTo_nextScript hended rfl rfl hcond (by simp)).bind fun _ vm₁ hstarted => ?_
  refine (runsTo_skipEmptyScript hstarted).bind fun _ vm₂ hstarted₂ => ?_
  refine runsTo_get_bind (runsTo_of_ok (exec_pure _ vm₂) ⟨hstarted₂.toInv, fun _ => ?_⟩)
  exact (sub_le _ _).trans hstarted₂.left

include hscript in
theorem opcodesFrom_eq : vm.opcodesFrom vm.scriptIdx = script.length + vm.opcodesAfter := by
  obtain ⟨hidx, hget⟩ := List.getElem?_eq_some_iff.mp hscript
  rw [opcodesFrom, opcodesAfter, drop_eq_getElem_cons hidx, hget, map_cons, sum_cons, add_assoc]

theorem Engine.Inv.saved_ne_nil (h : vm.Inv) (hscript : vm.scripts[vm.scriptIdx]? = some script)
    (hop : script[vm.scriptOff]? = some op) {vm₁ : Engine}
    (hexec : exec (executeOpcode crypto op) { vm with scriptOff := vm.scriptOff + 1 } = (.ok u, vm₁))
    (hp2sh : vm.isP2SH) (hidx : vm.scriptIdx = 1) : vm.savedFirstStack ≠ [] := by
  rcases h.saved hp2sh hidx with hsaved | ⟨hoff, hdstack, hcond⟩
  · exact hsaved
  obtain ⟨s0, s1, hscripts, hhash⟩ := h.scriptHash hp2sh hidx.le
  have hs1 : s1 = script := by simpa [hscripts, hidx] using hscript
  have hmap := of_decide_eq_true (hs1 ▸ hhash)
  have hvalue : op.opcode.value = opBlake2b := by
    have hget : (script.map (·.opcode.value))[0]? = some op.opcode.value := by
      rw [List.getElem?_map, ← hoff, hop]
      rfl
    rw [hmap] at hget
    exact (Option.some.inj hget).symm
  exact (executeOpcode_blake2b crypto hvalue (by exact hdstack) (by exact hcond) u vm₁ hexec).elim

/-- A step keeps the limits and comes nearer to the end of the scripts. -/
theorem runsTo_step (h : vm.Inv) :
    RunsTo (step crypto) vm fun done vm' => vm'.Inv ∧ (done = false → vm'.left < vm.left) := by
  have hroom := maxStackSize_le
  by_cases hend : ∀ script, vm.scripts[vm.scriptIdx]? = some script → script.length ≤ vm.scriptOff
  · exact runsTo_of_ends (step_ends_of_none crypto hend) (fun _ _ h => h.elim) fun _ _ h => h.1
  push Not at hend
  obtain ⟨script, hscript, hoff⟩ := hend
  have hop := List.getElem?_eq_getElem hoff
  have hopcodes := opcodesFrom_eq hscript
  have hready : Ready { vm with scriptOff := vm.scriptOff + 1 } 3 :=
    ⟨h.ready.room, ⟨h.short.dstack, h.short.astack⟩, h.nonneg, h.input⟩
  have hexecute := (safe_executeOpcode crypto script[vm.scriptOff]).runsTo hready
  have hrun : RunsTo (executeOpcode crypto script[vm.scriptOff] >>= fun _ => afterOpcode)
      { vm with scriptOff := vm.scriptOff + 1 } fun done vm' => vm'.Inv ∧ (done = false → vm'.left < vm.left) := by
    refine RunsTo.bind (Q := fun _ vm₁ => Effect 3 _ { vm with scriptOff := vm.scriptOff + 1 } vm₁ ∧
        (vm.isP2SH → vm.scriptIdx = 1 → vm.savedFirstStack ≠ []))
      ⟨fun u vm₁ hu => ⟨(hexecute.ok u vm₁ hu).2, h.saved_ne_nil crypto hscript hop hu⟩, hexecute.error⟩ ?_
    rintro _ vm₁ ⟨heffect, hsaved⟩
    have hcombined : vm₁.combined ≤ vm.combined + 3 := heffect.combined
    have hle := h.combined
    refine (runsTo_checkStackSize (by omega)).bind ?_
    rintro _ _ ⟨rfl, hsize⟩
    have hscript₁ : vm₁.scripts[vm₁.scriptIdx]? = some script := by
      rw [heffect.scripts, heffect.scriptIdx]
      exact hscript
    have hoff₁ : vm₁.scriptOff = vm.scriptOff + 1 := heffect.scriptOff
    have hafter : vm₁.opcodesAfter = vm.opcodesAfter := by
      simp only [opcodesAfter, heffect.scripts, heffect.scriptIdx, heffect.isP2SH]
    have hopcodes₁ := opcodesFrom_eq hscript₁
    have hended : Ended vm₁ := by
      refine ⟨hsize, heffect.short ⟨h.short.dstack, h.short.astack⟩, heffect.txIdx ▸ h.nonneg,
        heffect.txIdx ▸ heffect.tx ▸ h.input, heffect.savedFirstStack ▸ h.savedShort,
        heffect.savedFirstStack ▸ h.savedLength, ?_, ?_⟩
      · rw [heffect.isP2SH, heffect.scriptIdx, heffect.scripts]
        exact h.scriptHash
      rw [heffect.isP2SH, heffect.scriptIdx, heffect.savedFirstStack]
      exact hsaved
    refine runsTo_get_bind (runsTo_checked_bind (by rw [index_natCast]; exact hscript₁) ?_)
    split_ifs with hlast
    · refine (runsTo_endScript hended).mono fun done vm' hdone => ?_
      refine ⟨hdone.1, fun hfalse => (hdone.2 hfalse).trans_lt ?_⟩
      rw [hafter, left]
      omega
    refine runsTo_of_ok (exec_pure _ vm₁) ⟨⟨hsize, hended.short, hended.nonneg, hended.input, ?_, hended.savedShort,
      hended.savedLength, hended.scriptHash, fun hp2sh hidx => .inl (hended.saved hp2sh hidx)⟩, fun _ => ?_⟩
    · exact heffect.numOps.trans (max_le h.numOps le_rfl)
    rw [left, left]
    omega
  have hstep := exec_step crypto hscript hop
  exact ⟨fun done vm' hdone => hrun.ok done vm' (hstep ▸ hdone), fun e vm' he => hrun.error e vm' (hstep ▸ he)⟩

/-! ## Whole runs -/

theorem runsTo_stepLoop (h : vm.Inv) (hrounds : vm.left < rounds) :
    RunsTo (stepLoop crypto rounds) vm fun _ vm' => vm'.Inv := by
  induction rounds generalizing vm with
  | zero => omega
  | succ rounds ih =>
    refine (runsTo_step crypto h).bind fun done vm' hvm' => ?_
    obtain ⟨hinv, hleft⟩ := hvm'
    cases done with
    | true => exact runsTo_of_ok (exec_pure _ vm') hinv
    | false => exact ih hinv (by have := hleft rfl; omega)

theorem exec_stepLoop_congr {rounds' : ℕ} (h : vm.Inv) (hrounds : vm.left < rounds) (hrounds' : vm.left < rounds') :
    exec (stepLoop crypto rounds) vm = exec (stepLoop crypto rounds') vm := by
  induction rounds generalizing vm rounds' with
  | zero => omega
  | succ rounds ih =>
    obtain ⟨rounds', rfl⟩ : ∃ n, rounds' = n + 1 := ⟨rounds' - 1, by omega⟩
    have hstep := runsTo_step crypto h
    rw [stepLoop, stepLoop, exec_bind, exec_bind]
    rcases hexec : exec (step crypto) vm with ⟨e | done, vm'⟩
    · rfl
    obtain ⟨hinv, hleft⟩ := hstep.ok done vm' hexec
    cases done with
    | true => rfl
    | false => exact ih hinv (by have := hleft rfl; omega) (by have := hleft rfl; omega)

theorem runsTo_execute (h : vm.Inv) (hrounds : vm.left < rounds) :
    RunsTo (execute crypto rounds) vm fun _ _ => True := by
  refine runsTo_get_bind ?_
  split_ifs
  · exact runsTo_of_ok (exec_pure _ vm) trivial
  refine (runsTo_stepLoop crypto h hrounds).bind fun _ vm' hvm' => ?_
  have hready : vm'.Ready 0 := ⟨by have := hvm'.ready.room; omega, hvm'.short, hvm'.nonneg, hvm'.input⟩
  exact ((safe_checkErrorCondition true).runsTo hready).mono fun _ _ _ => trivial

end

theorem parseScriptAndVerifySize_ends :
    (∃ pops, parseScriptAndVerifySize script = .ok pops ∧ pops.length ≤ maxScriptSize) ∨
      ∃ e, parseScriptAndVerifySize script = .error e ∧ e.Expected := by
  unfold parseScriptAndVerifySize
  split_ifs with hlong
  · exact .inr ⟨_, rfl, trivial⟩
  rcases parsed_ends script with ⟨pops, hpops, hlen⟩ | ⟨e, he, hexpected⟩
  · exact .inl ⟨pops, hpops, by omega⟩
  · exact .inr ⟨e, he, hexpected⟩

/-- The opcodes of two scripts and of a redeem script. -/
def maxSteps : ℕ := 2 * maxScriptSize + maxScriptElementSize

theorem inv_start {tx : DomainTransaction} {txIdx : ℤ}
    (hidx : ¬ (txIdx < 0 ∨ txIdx ≥ tx.inputs.length)) {sigPops pops : List ParsedOpcode}
    (hsigLen : sigPops.length ≤ maxScriptSize) (hlen : pops.length ≤ maxScriptSize)
    {version start : ℕ} (hstart : start ≤ 1)
    (hvm : vm = ⟨version, [sigPops, pops], start, 0, [], [], tx, txIdx, [], 0, isScriptHash pops, [], 0⟩) :
    vm.Inv ∧ vm.left ≤ maxSteps := by
  subst hvm
  have hnil : Stack.Short [] := fun so hso => absurd hso not_mem_nil
  refine ⟨⟨zero_le _, ⟨hnil, hnil⟩, by simp only; omega, by simp only; omega, Int.natCast_nonneg _, hnil,
    zero_le _, fun hhash _ => ⟨sigPops, pops, rfl, hhash⟩, fun _ _ => .inr ⟨rfl, rfl, rfl⟩⟩, ?_⟩
  have hsum : (([sigPops, pops].drop start).map List.length).sum ≤ 2 * maxScriptSize := by
    obtain rfl | rfl : start = 0 ∨ start = 1 := by omega
    · simp only [drop_zero, map_cons, map_nil, sum_cons, sum_nil]
      omega
    simp only [drop_succ_cons, drop_zero, map_cons, map_nil, sum_cons, sum_nil]
    omega
  simp only [Engine.left, Engine.opcodesFrom, maxSteps]
  split_ifs <;> omega

theorem newEngine_ends (scriptPubKey : ScriptPublicKey) (tx : DomainTransaction) (txIdx : ℤ) :
    (∃ vm, newEngine scriptPubKey tx txIdx = .ok vm ∧
      ((vm.scriptVersion > maxScriptPublicKeyVersion ∧ vm.scripts = [] ∧ vm.combined = 0 ∧ vm.numOps = 0) ∨
        vm.Inv ∧ vm.left ≤ maxSteps)) ∨ ∃ e, newEngine scriptPubKey tx txIdx = .error e ∧ e.Expected := by
  unfold newEngine
  by_cases hidx : txIdx < 0 ∨ txIdx ≥ tx.inputs.length
  · exact .inr ⟨_, if_pos hidx, trivial⟩
  obtain ⟨input, hinput⟩ := exists_index (l := tx.inputs) (i := txIdx) (by omega) (by omega)
  simp only [if_neg hidx, checked_some hinput, ok_bind]
  by_cases hempty : input.signatureScript.length = 0 ∧ scriptPubKey.script.length = 0
  · exact .inr ⟨_, if_pos hempty, trivial⟩
  by_cases hversion : scriptPubKey.version > maxScriptPublicKeyVersion
  · simp only [if_neg hempty, if_pos hversion]
    exact .inl ⟨_, rfl, .inl ⟨hversion, rfl, rfl, rfl⟩⟩
  simp only [if_neg hempty, if_neg hversion]
  rcases parseScriptAndVerifySize_ends input.signatureScript with ⟨sigPops, hsigPops, hsigLen⟩ | ⟨e, he, hexpected⟩
  swap
  · exact .inr ⟨e, by rw [he, error_bind], hexpected⟩
  simp only [hsigPops, ok_bind]
  by_cases hpush : isPushOnly sigPops
  swap
  · exact .inr ⟨_, if_pos hpush, trivial⟩
  rcases parseScriptAndVerifySize_ends scriptPubKey.script with ⟨pops, hpops, hlen⟩ | ⟨e, he, hexpected⟩
  swap
  · exact .inr ⟨e, by simp only [hpush, he, error_bind, not_true_eq_false, if_false], hexpected⟩
  simp only [hpush, hpops, ok_bind, not_true_eq_false, if_false, and_false]
  exact .inl ⟨_, rfl, .inr (inv_start hidx hsigLen hlen (by split_ifs <;> decide) rfl)⟩

def Steps (crypto : Crypto) : Engine → Engine → Prop :=
  Relation.ReflTransGen fun vm vm' => ∃ done, exec (step crypto) vm = (.ok done, vm')

variable {vm' : Engine}

theorem Steps.inv {crypto : Crypto} (h : Steps crypto vm vm') (hvm : vm.Inv) : vm'.Inv := by
  induction h with
  | refl => exact hvm
  | tail _ hstep ih =>
    obtain ⟨done, hdone⟩ := hstep
    exact ((runsTo_step crypto ih).ok done _ hdone).1

theorem Steps.eq_of_nil {crypto : Crypto} (h : Steps crypto vm vm') (hvm : vm.scripts = []) : vm' = vm := by
  induction h with
  | refl => rfl
  | tail _ hstep ih =>
    obtain ⟨done, hdone⟩ := hstep
    rw [ih] at hdone
    have hends := step_ends_of_none crypto fun script (hscript : vm.scripts[vm.scriptIdx]? = some script) => by
      simp [hvm] at hscript
    rw [hdone] at hends
    exact hends.elim

/-- `Execute` ends without an expression out of range, and after each step the limits hold. -/
theorem execute_in_range (crypto : Crypto) (scriptPubKey : ScriptPublicKey) (tx : DomainTransaction) (txIdx : ℤ) :
    (∀ e, newEngine scriptPubKey tx txIdx = .error e → e.Expected) ∧ ∀ vm, newEngine scriptPubKey tx txIdx = .ok vm →
      (∃ r : Except Failure Unit × Engine, (∀ rounds, maxSteps < rounds → exec (execute crypto rounds) vm = r) ∧
        ∀ e, r.1 = .error e → e.Expected) ∧
      ∀ vm', Steps crypto vm vm' → vm'.combined ≤ maxStackSize ∧ vm'.numOps ≤ maxOpsPerScript := by
  rcases newEngine_ends scriptPubKey tx txIdx with ⟨vm, hvm, hstart⟩ | ⟨e, he, hexpected⟩
  · refine ⟨fun e he => (by cases hvm.symm.trans he), fun vm' hvm' => ?_⟩
    cases hvm.symm.trans hvm'
    rcases hstart with ⟨hversion, hscripts, hcombined, hnumOps⟩ | ⟨hinv, hleft⟩
    · refine ⟨⟨(.ok (), vm), fun rounds _ => ?_, fun e he => by cases he⟩, fun vm' hsteps => ?_⟩
      · rw [execute, exec_bind_ok (exec_get vm), if_pos hversion, exec_pure]
      rw [hsteps.eq_of_nil hscripts, hcombined, hnumOps]
      exact ⟨zero_le _, by decide⟩
    refine ⟨⟨exec (execute crypto (maxSteps + 1)) vm, fun rounds hrounds => ?_, fun e he => ?_⟩, fun vm' hsteps => ?_⟩
    · have hloop := exec_stepLoop_congr crypto hinv (hleft.trans_lt hrounds) (hleft.trans_lt (lt_succ_self _))
      rw [execute, execute, exec_bind_ok (exec_get vm), exec_bind_ok (exec_get vm)]
      split_ifs
      · rfl
      · rw [exec_bind, exec_bind, hloop]
    · exact (runsTo_execute crypto hinv (hleft.trans_lt (lt_succ_self _))).error e _ (Prod.ext he rfl)
    · exact ⟨(hsteps.inv hinv).combined, (hsteps.inv hinv).numOps⟩
  · refine ⟨fun e' he' => ?_, fun vm hvm => (by cases he.symm.trans hvm)⟩
    cases he.symm.trans he'
    exact hexpected

def rejectingScheme (pubKeyLength : ℕ) : SignatureScheme :=
  ⟨pubKeyLength, fun _ _ _ => some [], fun _ => some [], fun _ => some [], fun _ _ _ => false⟩

def sampleCrypto : Crypto :=
  ⟨fun _ => List.replicate 32 0, fun _ => List.replicate 32 0, rejectingScheme 32, rejectingScheme 33, fun _ => rfl,
    fun _ => rfl, rfl, rfl⟩

def sampleSpend : DomainTransaction := ⟨0, [⟨⟨0, 0⟩, [0x51], 0, 0⟩], [], 0, 0, 0, [], 0⟩

/-- The step that pushes a number, and the limits after it. -/
theorem execute_in_range_sample : ∃ vm vm' done, newEngine ⟨[0x61], 0⟩ sampleSpend 0 = .ok vm ∧ maxSteps < 20521 ∧
    (∀ e vm', exec (execute sampleCrypto 20521) vm = (.error e, vm') → e.Expected) ∧
    exec (step sampleCrypto) vm = (.ok done, vm') ∧ vm'.combined = 1 ∧ vm'.combined ≤ maxStackSize := by
  have hrun : (do
      let vm ← newEngine ⟨[0x61], 0⟩ sampleSpend 0
      let done ← (exec (step sampleCrypto) vm).1
      pure (done, (exec (step sampleCrypto) vm).2.combined)) = (.ok (false, 1) : Except Failure (Bool × ℕ)) := by
    decide +kernel
  obtain ⟨vm, hvm, hrun⟩ := bind_eq_ok.mp hrun
  obtain ⟨done, hdone, hrun⟩ := bind_eq_ok.mp hrun
  obtain ⟨vm', hstep⟩ : ∃ vm', exec (step sampleCrypto) vm = (.ok done, vm') := ⟨_, Prod.ext hdone rfl⟩
  have hone := (Prod.mk.inj (Except.ok.inj hrun)).2
  rw [hstep] at hone
  obtain ⟨⟨r, hr, hexpected⟩, hsteps⟩ := (execute_in_range sampleCrypto ⟨[0x61], 0⟩ sampleSpend 0).2 vm hvm
  refine ⟨vm, vm', done, hvm, by decide, fun e vm' he => hexpected e ?_, hstep, hone,
    (hsteps vm' (.single ⟨done, hstep⟩)).1⟩
  rw [← hr 20521 (by decide), he]

end Kaspad.Txscript
