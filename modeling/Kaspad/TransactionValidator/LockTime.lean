import Kaspad.Txscript.Execute

/-! # Lock times

A script compares its operands with fields of the transaction, and the fields are compared with the
block from which the transaction is looked at: `IsFinalizedTransaction` and the sequence locks of
`transaction_in_context.go`.
-/

namespace Kaspad
open Lib Prog Txscript List

/-! ## The code -/

def toUint64 (n : ℤ) : ℕ := (n % 2 ^ 64).toNat

def isFinalizedTransaction (tx : DomainTransaction) (blockDAAScore : ℕ) (blockTime : ℤ) : Bool :=
  let lockTime := tx.lockTime
  if lockTime = 0 then true
  else if lockTime < (if lockTime < lockTimeThreshold then blockDAAScore else toUint64 blockTime) then true
  else tx.inputs.all fun input => input.sequence = 2 ^ 64 - 1

def validateTransactionInContextIgnoringUTXO (tx : DomainTransaction) (povBlockDAAScore : ℕ)
    (povBlockPastMedianTime : ℤ) : Except RuleError Unit :=
  if !isFinalizedTransaction tx povBlockDAAScore povBlockPastMedianTime then
    .error (.rule .unfinalizedTx s!"unfinalized transaction {reprStr tx}")
  else .ok ()

def Txscript.Failure.description : Txscript.Failure → String
  | .scriptError _ description => description
  | _ => ""

def executeWithEngine (crypto : Crypto) (tx : DomainTransaction) (_ : List (Option UTXOEntry)) (i : ℕ)
    (scriptPubKey : ScriptPublicKey) : Except ScriptFailure Unit :=
  match newEngine scriptPubKey tx i with
  | .error e => .error (.malformed e.description)
  | .ok vm =>
    match (exec (execute crypto (maxSteps + 1)) vm).1 with
    | .error e => .error (.failed e.description)
    | .ok () => .ok ()

/-! ## What a run executes -/

def Running (crypto : Crypto) : Engine → Engine → Prop :=
  Relation.ReflTransGen fun vm vm' => exec (step crypto) vm = (.ok false, vm')

def operand (bytes : List UInt8) : ℕ := LittleEndian.decode (bytes ++ List.replicate (8 - bytes.length) 0)

/-- The run comes to an executed opcode with this function, and `n` is on top of the stack. -/
def Executed (crypto : Crypto) (vm₀ : Engine) (opfunc : OpFunc) (n : ℕ) : Prop :=
  ∃ vm script op bytes, Running crypto vm₀ vm ∧ vm.scripts[vm.scriptIdx]? = some script ∧
    script[vm.scriptOff]? = some op ∧ op.opcode.opfunc = opfunc ∧ vm.isBranchExecuting ∧
    vm.dstack.getLast? = some bytes ∧ operand bytes = n

section
variable {crypto : Crypto} {vm vm' : Engine} {tx : DomainTransaction} {i : ℤ}

theorem Running.steps (h : Running crypto vm vm') : Steps crypto vm vm' :=
  Relation.ReflTransGen.mono (fun _ _ hstep => ⟨false, hstep⟩) _ _ h

theorem step_ok_of_running {rounds : ℕ} {vm₁ : Engine} (hloop : exec (stepLoop crypto rounds) vm = (.ok (), vm₁))
    (h : Running crypto vm vm') : ∃ done vm'', exec (step crypto) vm' = (.ok done, vm'') := by
  induction h using Relation.ReflTransGen.head_induction_on generalizing rounds with
  | refl =>
    cases rounds with
    | zero => cases congrArg Prod.fst hloop
    | succ rounds =>
      obtain ⟨done, vm'', hstep, -⟩ := exec_bind_eq_ok hloop
      exact ⟨done, vm'', hstep⟩
  | head hstep _ ih =>
    cases rounds with
    | zero => cases congrArg Prod.fst hloop
    | succ rounds =>
      obtain ⟨done, vm'', hstep', hrest⟩ := exec_bind_eq_ok hloop
      obtain ⟨hdone, rfl⟩ := Prod.mk.inj (hstep.symm.trans hstep')
      cases hdone
      exact ih hrest

def OnInput (tx : DomainTransaction) (i : ℤ) (vm : Engine) : Prop := vm.tx = tx ∧ vm.txIdx = i

variable {α : Type} {scriptPubKey : ScriptPublicKey} {u : Unit} {n : ℕ} {bytes : List UInt8}

theorem keeps_fail (code : ErrorCode) (description : String) :
    Keeps (OnInput tx i) (Engine.fail code description : Run α) :=
  keeps_throw _

theorem keeps_ofExcept (r : Except Txscript.Failure α) : Keeps (OnInput tx i) (ofExcept r : Run α) := by
  intro vm h
  rwa [exec_ofExcept]

variable (m : Prog Stack Txscript.Failure α)

theorem keeps_dstackM : Keeps (OnInput tx i) (Engine.dstackM m) :=
  fun _ h => h

theorem keeps_astackM : Keeps (OnInput tx i) (Engine.astackM m) :=
  fun _ h => h

theorem keeps_checkErrorCondition (finalScript : Bool) : Keeps (OnInput tx i) (checkErrorCondition finalScript) := by
  apply keeps_get_bind
  intro vm _
  split_ifs
  · exact keeps_fail _ _
  · exact keeps_fail _ _
  · exact keeps_fail _ _
  apply (keeps_dstackM _).bind
  intro v
  split_ifs
  · exact keeps_pure _
  · exact keeps_fail _ _

theorem keeps_nextScript : Keeps (OnInput tx i) nextScript := by
  apply keeps_get_bind
  intro vm _
  split_ifs
  · exact keeps_modify fun _ h => h
  · refine Keeps.bind ?_ fun _ => (keeps_checkErrorCondition false).bind fun _ => ?_
    · exact keeps_modify fun _ h => h
    apply keeps_get_bind
    intro vm _
    refine (keeps_ofExcept _).bind fun _ => (keeps_ofExcept _).bind fun _ => Keeps.bind ?_ fun _ => ?_
    · exact keeps_modify fun _ h => h
    · exact (keeps_ofExcept _).bind fun _ => keeps_dstackM _
  · exact keeps_modify fun _ h => h

theorem keeps_skipEmptyScript : Keeps (OnInput tx i) skipEmptyScript := by
  apply keeps_get_bind
  intro vm _
  split_ifs
  · apply (keeps_ofExcept _).bind
    intro script
    split_ifs
    · exact keeps_modify fun _ h => h
    · exact keeps_pure _
  · exact keeps_pure _

theorem keeps_endScript : Keeps (OnInput tx i) endScript := by
  apply keeps_get_bind
  intro vm _
  by_cases hcond : vm.condStack.length ≠ 0
  · rw [if_pos hcond]
    exact keeps_fail _ _
  rw [if_neg hcond]
  refine (keeps_astackM _).bind fun _ => Keeps.bind ?_ fun _ => ?_
  · exact keeps_modify fun _ h => h
  refine keeps_nextScript.bind fun _ => keeps_skipEmptyScript.bind fun _ => ?_
  apply keeps_get_bind
  intro vm _
  exact keeps_pure _

theorem keeps_afterOpcode : Keeps (OnInput tx i) afterOpcode := by
  have hsize : Keeps (OnInput tx i) checkStackSize := by
    apply keeps_get_bind
    intro vm _
    dsimp only
    split_ifs
    · exact keeps_fail _ _
    · exact keeps_pure _
  apply hsize.bind
  intro _
  apply keeps_get_bind
  intro vm _
  apply (keeps_ofExcept _).bind
  intro script
  split_ifs
  · exact keeps_endScript
  · exact keeps_pure _

theorem onInput_of_step {done : Bool} (hinv : vm.Inv) (h : OnInput tx i vm)
    (hstep : exec (step crypto) vm = (.ok done, vm')) : OnInput tx i vm' := by
  by_cases hend : ∀ script, vm.scripts[vm.scriptIdx]? = some script → script.length ≤ vm.scriptOff
  · have hends := step_ends_of_none crypto hend
    rw [hstep] at hends
    exact hends.elim
  push Not at hend
  obtain ⟨script, hscript, hoff⟩ := hend
  rw [exec_step crypto hscript (List.getElem?_eq_getElem hoff)] at hstep
  obtain ⟨_, vm₁, hexec, hafter⟩ := exec_bind_eq_ok hstep
  have hready : Engine.Ready { vm with scriptOff := vm.scriptOff + 1 } 3 :=
    ⟨hinv.ready.room, ⟨hinv.short.dstack, hinv.short.astack⟩, hinv.nonneg, hinv.input⟩
  have heffect := (((safe_executeOpcode crypto _).runsTo hready).ok _ _ hexec).2
  exact keeps_afterOpcode.of_exec ⟨heffect.tx.trans h.1, heffect.txIdx.trans h.2⟩ hafter

theorem Running.onInput (h : Running crypto vm vm') (hinv : vm.Inv) (hvm : OnInput tx i vm) : OnInput tx i vm' := by
  induction h with
  | refl => exact hvm
  | tail hrun hstep ih => exact onInput_of_step ((Running.steps hrun).inv hinv) ih hstep

theorem onInput_of_newEngine (h : newEngine scriptPubKey tx i = .ok vm) :
    vm.scripts = [] ∨ ¬ vm.scriptVersion > maxScriptPublicKeyVersion ∧ OnInput tx i vm := by
  unfold newEngine at h
  by_cases hidx : i < 0 ∨ i ≥ tx.inputs.length
  · rw [if_pos hidx] at h
    cases h
  rw [if_neg hidx] at h
  obtain ⟨input, -, h⟩ := bind_eq_ok.mp h
  by_cases hempty : input.signatureScript.length = 0 ∧ scriptPubKey.script.length = 0
  · rw [if_pos hempty] at h
    cases h
  by_cases hversion : scriptPubKey.version > maxScriptPublicKeyVersion
  · rw [if_neg hempty, if_pos hversion] at h
    cases h
    exact .inl rfl
  rw [if_neg hempty, if_neg hversion] at h
  obtain ⟨sigPops, -, h⟩ := bind_eq_ok.mp h
  by_cases hpush : isPushOnly sigPops
  · rw [if_neg (not_not.mpr hpush)] at h
    obtain ⟨pops, -, h⟩ := bind_eq_ok.mp h
    rw [if_neg fun hhash => hhash.2 hpush] at h
    cases h
    exact .inr ⟨hversion, rfl, rfl⟩
  · rw [if_pos hpush] at h
    cases h

theorem executeOpcode_ok {op : ParsedOpcode} (hbranch : vm.isBranchExecuting)
    (h : exec (executeOpcode crypto op) vm = (.ok u, vm')) :
    ∃ numOps, exec (op.opcode.opfunc.call crypto op) { vm with numOps } = (.ok u, vm') := by
  unfold executeOpcode at h
  split_ifs at h with hdisabled hillegal hvalue hlong
  · cases congrArg Prod.fst h
  · cases congrArg Prod.fst h
  on_goal 1 =>
    obtain ⟨_, vm₁, hops, h⟩ := exec_bind_eq_ok h
    simp only [addOps, exec_bind, exec_modify, exec_get] at hops
    split_ifs at hops
    · cases congrArg Prod.fst hops
    obtain rfl : _ = vm₁ := congrArg Prod.snd hops
    refine ⟨vm.numOps + 1, ?_⟩
  on_goal 2 => cases congrArg Prod.fst h
  on_goal 2 => refine ⟨vm.numOps, ?_⟩
  all_goals
    rw [exec_bind_ok (exec_get _), if_neg fun hskip => hskip.1 (by exact hbranch)] at h
    split_ifs at h
    · obtain ⟨_, vm₂, hpush, h⟩ := exec_bind_eq_ok h
      rw [exec_ofExcept] at hpush
      obtain rfl : _ = vm₂ := congrArg Prod.snd hpush
      exact h
    · exact h

theorem Executed.call {opfunc : OpFunc} (hvm : newEngine scriptPubKey tx i = .ok vm)
    (hok : (exec (execute crypto (maxSteps + 1)) vm).1 = .ok ()) (h : Executed crypto vm opfunc n) :
    ∃ vm₁ op bytes u vm₂, OnInput tx i vm₁ ∧ vm₁.dstack.length ≤ maxStackSize ∧ vm₁.dstack.getLast? = some bytes ∧
      operand bytes = n ∧ exec (opfunc.call crypto op) vm₁ = (.ok u, vm₂) := by
  obtain ⟨vm₁, script, op, bytes, hrun, hscript, hop, rfl, hbranch, htop, hn⟩ := h
  have hscripts : vm.scripts ≠ [] := by
    intro hnil
    rw [hrun.steps.eq_of_nil hnil, hnil] at hscript
    cases hscript
  obtain ⟨vm', hvm', hstart⟩ := (newEngine_ends scriptPubKey tx i).resolve_right fun ⟨e, he, _⟩ => by
    cases he.symm.trans hvm
  obtain rfl : vm' = vm := Except.ok.inj (hvm'.symm.trans hvm)
  have hinv := (hstart.resolve_left fun h => hscripts h.2.1).1
  obtain ⟨hversion, hstart⟩ := (onInput_of_newEngine hvm).resolve_left hscripts
  have hexecute : exec (execute crypto (maxSteps + 1)) vm' = (.ok (), (exec (execute crypto (maxSteps + 1)) vm').2) :=
    Prod.ext hok rfl
  rw [execute, exec_bind_ok (exec_get vm'), if_neg hversion] at hexecute
  obtain ⟨⟨⟩, _, hloop, -⟩ := exec_bind_eq_ok hexecute
  obtain ⟨done, vm₂, hstep⟩ := step_ok_of_running hloop hrun
  rw [exec_step crypto hscript hop] at hstep
  obtain ⟨u, vm₃, hexec, -⟩ := exec_bind_eq_ok hstep
  have hbranch' : Engine.isBranchExecuting { vm₁ with scriptOff := vm₁.scriptOff + 1 } = true := hbranch
  obtain ⟨numOps, hcall⟩ := executeOpcode_ok hbranch' hexec
  have hcombined := (hrun.steps.inv hinv).combined
  refine ⟨_, op, bytes, u, vm₃, ?_, ?_, ?_, hn, hcall⟩
  · exact hrun.onInput hinv hstart
  · exact (Nat.le_add_right _ _).trans hcombined
  · exact htop

variable (hlen : vm.dstack.length ≤ maxStackSize) (htop : vm.dstack.getLast? = some bytes)
include hlen htop in
theorem popUint64_ok {what : String} (h : exec (popUint64 what) vm = (.ok n, vm')) :
    n = operand bytes ∧ OnInput vm.tx vm.txIdx vm' := by
  obtain ⟨s, hs⟩ := List.getLast?_eq_some_iff.mp htop
  have hpop : exec (Engine.dstackM Stack.popByteArray) vm = (.ok bytes, { vm with dstack := s }) := by
    have hroom := maxStackSize_le
    rw [hs, length_append, length_singleton] at hlen
    rw [Engine.dstackM, exec_zoom, hs, Stack.exec_popByteArray (by omega)]
  rw [popUint64, exec_bind_ok hpop] at h
  split_ifs at h
  · cases congrArg Prod.fst h
  obtain ⟨hn, rfl⟩ := Prod.mk.inj h
  exact ⟨(Except.ok.inj hn).symm, rfl, rfl⟩

variable {lockTime : ℕ}

theorem verifyLockTime_ok {txLockTime : ℕ} (h : exec (verifyLockTime txLockTime lockTime) vm = (.ok u, vm')) :
    lockTime ≤ txLockTime ∧ vm' = vm := by
  unfold verifyLockTime at h
  split_ifs at h with hgreater
  · cases congrArg Prod.fst h
  · exact ⟨not_lt.mp hgreater, (congrArg Prod.snd h).symm⟩

theorem verifyLockTimeThreshold_ok {txLockTime threshold : ℕ}
    (h : exec (verifyLockTimeThreshold txLockTime threshold lockTime) vm = (.ok u, vm')) :
    (lockTime < threshold ↔ txLockTime < threshold) ∧ vm' = vm := by
  unfold verifyLockTimeThreshold at h
  by_cases hkinds : (txLockTime < threshold ∧ lockTime < threshold) ∨ (txLockTime ≥ threshold ∧ lockTime ≥ threshold)
  · rw [if_neg (not_not.mpr hkinds)] at h
    exact ⟨by omega, (congrArg Prod.snd h).symm⟩
  rw [if_pos hkinds] at h
  cases congrArg Prod.fst h

theorem currentInput_ok {input : DomainTransactionInput} (h : exec Engine.currentInput vm = (.ok input, vm')) :
    GoSlice.index vm.tx.inputs vm.txIdx = some input := by
  rw [Engine.currentInput, exec_bind_ok (exec_get vm), exec_ofExcept] at h
  have hchecked := congrArg Prod.fst h
  revert hchecked
  cases GoSlice.index vm.tx.inputs vm.txIdx with
  | none =>
    intro hchecked
    cases hchecked
  | some a => exact fun hchecked => congrArg some (Except.ok.inj hchecked)

include hlen htop

theorem checkLockTimeVerify_ok (h : exec opcodeCheckLockTimeVerify vm = (.ok u, vm')) :
    operand bytes ≤ vm.tx.lockTime ∧ (operand bytes < lockTimeThreshold ↔ vm.tx.lockTime < lockTimeThreshold) ∧
      ∃ input, GoSlice.index vm.tx.inputs vm.txIdx = some input ∧ input.sequence ≠ maxTxInSequenceNum := by
  obtain ⟨n, vm₁, hpop, h⟩ := exec_bind_eq_ok h
  obtain ⟨rfl, htx, hidx⟩ := popUint64_ok hlen htop hpop
  rw [exec_bind_ok (exec_get vm₁)] at h
  obtain ⟨_, vm₂, hverify, hrest⟩ := exec_bind_eq_ok h
  obtain ⟨_, vm₃, hthreshold, hverify⟩ := exec_bind_eq_ok hverify
  obtain ⟨hkind, rfl⟩ := verifyLockTimeThreshold_ok hthreshold
  obtain ⟨hle, rfl⟩ := verifyLockTime_ok hverify
  obtain ⟨input, vm₄, hinput, hrest⟩ := exec_bind_eq_ok hrest
  have hindex := currentInput_ok hinput
  rw [htx, hidx] at hindex
  rw [htx] at hkind hle
  refine ⟨hle, hkind, input, hindex, fun hsequence => ?_⟩
  rw [if_pos hsequence] at hrest
  cases congrArg Prod.fst hrest

theorem checkSequenceVerify_ok (henabled : operand bytes &&& sequenceLockTimeDisabled = 0)
    (h : exec opcodeCheckSequenceVerify vm = (.ok u, vm')) :
    ∃ input, GoSlice.index vm.tx.inputs vm.txIdx = some input ∧ input.sequence &&& sequenceLockTimeDisabled = 0 ∧
      operand bytes &&& sequenceLockTimeMask ≤ input.sequence &&& sequenceLockTimeMask := by
  obtain ⟨n, vm₁, hpop, h⟩ := exec_bind_eq_ok h
  obtain ⟨rfl, htx, hidx⟩ := popUint64_ok hlen htop hpop
  rw [if_neg (not_not.mpr henabled)] at h
  obtain ⟨input, vm₂, hinput, h⟩ := exec_bind_eq_ok h
  have hindex := currentInput_ok hinput
  rw [htx, hidx] at hindex
  dsimp only at h
  split_ifs at h with hdisabled
  · cases congrArg Prod.fst h
  · exact ⟨input, hindex, not_not.mp hdisabled, (verifyLockTime_ok h).1⟩

end

/-! ## The fields against the block -/

theorem and_sequenceLockTimeMask (n : ℕ) : n &&& sequenceLockTimeMask = n % 2 ^ 32 :=
  Nat.and_two_pow_sub_one_eq_mod n 32

theorem lockTime_lt_of_isFinalizedTransaction {tx : DomainTransaction} {blockDAAScore : ℕ} {blockTime : ℤ}
    {input : DomainTransactionInput} (h : isFinalizedTransaction tx blockDAAScore blockTime) (hzero : tx.lockTime ≠ 0)
    (hinput : input ∈ tx.inputs) (hsequence : input.sequence ≠ maxTxInSequenceNum) :
    tx.lockTime < if tx.lockTime < lockTimeThreshold then blockDAAScore else toUint64 blockTime := by
  unfold isFinalizedTransaction at h
  rw [if_neg hzero] at h
  by_contra hlock
  rw [if_neg hlock, all_eq_true] at h
  exact hsequence (of_decide_eq_true (h input hinput))

namespace TransactionValidator
variable {entries : List (Option UTXOEntry)} {input : DomainTransactionInput}
  {inputs : List PopulatedInput} {entry : UTXOEntry} {tx : DomainTransaction}

theorem entry_of_missingOutpoints_eq_nil {i : ℕ} (hlen : tx.inputs.length = entries.length)
    (hmissing : missingOutpoints (tx.inputs.zip entries) = []) (hinput : tx.inputs[i]? = some input) :
    ∃ entry, entries[i]? = some (some entry) ∧ (input, some entry) ∈ tx.inputs.zip entries := by
  have hi := hlen ▸ (List.getElem?_eq_some_iff.mp hinput).1
  have hmem : (input, entries[i]) ∈ tx.inputs.zip entries :=
    mem_of_getElem? (i := i) (List.getElem?_zip_eq_some.mpr ⟨hinput, List.getElem?_eq_getElem hi⟩)
  rw [missingOutpoints, map_eq_nil_iff, filter_eq_nil_iff] at hmissing
  have hsome := hmissing _ hmem
  obtain ⟨entry, hentry⟩ : ∃ entry, entries[i] = some entry := by
    simpa [Option.isNone_iff_eq_none, Option.ne_none_iff_exists'] using hsome
  rw [hentry] at hmem
  exact ⟨entry, by rw [List.getElem?_eq_getElem hi, hentry], hmem⟩

theorem validateScripts_ok {v : TransactionValidator} {k i : ℕ} (h : v.validateScripts tx entries k inputs = .ok ())
    (hi : inputs[i]? = some (input, some entry)) :
    v.executeScript tx entries (k + i) entry.scriptPublicKey = .ok () := by
  induction inputs generalizing k i with
  | nil => cases hi
  | cons populated inputs ih =>
    have hrest (h : v.validateScripts tx entries (k + 1) inputs = .ok ()) {j : ℕ}
        (hj : inputs[j]? = some (input, some entry)) :
        v.executeScript tx entries (k + (j + 1)) entry.scriptPublicKey = .ok () := by
      rw [← Nat.add_assoc, Nat.add_right_comm]
      exact ih h hj
    obtain ⟨_, _ | entry'⟩ := populated
    · cases i with
      | zero => cases hi
      | succ j => exact hrest h hi
    rw [validateScripts] at h
    split at h
    · cases h
    · cases h
    rename_i hexecute
    cases i with
    | zero =>
      cases hi
      exact hexecute
    | succ j => exact hrest h hi

theorem le_sequenceLockOf (lock : ℤ) (inputs : List PopulatedInput) : lock ≤ sequenceLockOf lock inputs := by
  induction inputs generalizing lock with
  | nil => exact le_rfl
  | cons populated inputs ih =>
    obtain ⟨input, _ | entry⟩ := populated
    · exact ih lock
    rw [sequenceLockOf]
    dsimp only
    split_ifs with hdisabled hgreater
    · exact ih lock
    · exact hgreater.le.trans (ih _)
    · exact ih lock

theorem entry_le_sequenceLockOf (lock : ℤ) (hmem : (input, some entry) ∈ inputs)
    (henabled : input.sequence &&& sequenceLockTimeDisabled = 0) (hentry : entry.blockDAAScore < 2 ^ 62) :
    (entry.blockDAAScore : ℤ) + (input.sequence % 2 ^ 32 : ℕ) - 1 ≤ sequenceLockOf lock inputs := by
  induction inputs generalizing lock with
  | nil => cases hmem
  | cons populated inputs ih =>
    rcases mem_cons.mp hmem with rfl | hrest
    · have hmask : input.sequence % 2 ^ 32 < 2 ^ 32 := Nat.mod_lt _ (by decide)
      have hscore : toInt64 entry.blockDAAScore = entry.blockDAAScore := toInt64_of_lt (by omega) (by omega)
      rw [sequenceLockOf]
      dsimp only
      rw [if_neg (by rw [henabled]; decide), and_sequenceLockTimeMask, hscore, toInt64_of_lt (by omega) (by omega)]
      refine le_trans ?_ (le_sequenceLockOf _ inputs)
      split_ifs with hgreater
      · exact le_rfl
      · omega
    · obtain ⟨input', _ | entry'⟩ := populated
      · exact ih lock hrest
      rw [sequenceLockOf]
      dsimp only
      split_ifs
      · exact ih lock hrest
      · exact ih _ hrest
      · exact ih lock hrest

/-- Executed lock time opcodes name a past DAA score or time, and sequence locks of other than coinbase transactions
have passed. -/
theorem lock_times_passed {v : TransactionValidator} {crypto : Crypto} {tx : DomainTransaction}
    {entries : List (Option UTXOEntry)} {povDAAScore fee i : ℕ} {pastMedianTime : ℤ} {input : DomainTransactionInput}
    (hengine : v.executeScript = executeWithEngine crypto) (hlen : tx.inputs.length = entries.length)
    (htime : 0 ≤ pastMedianTime) (htime' : pastMedianTime < 2 ^ 63) (hscore : povDAAScore < 2 ^ 62)
    (hentries : ∀ entry, some entry ∈ entries → entry.blockDAAScore < 2 ^ 62)
    (hfinal : validateTransactionInContextIgnoringUTXO tx povDAAScore pastMedianTime = .ok ())
    (hvalid : v.validateTransactionInContextAndPopulateFee povDAAScore tx entries = .ok fee)
    (hinput : tx.inputs[i]? = some input) :
    ∃ entry vm, entries[i]? = some (some entry) ∧ newEngine entry.scriptPublicKey tx i = .ok vm ∧
      (∀ n > 0, Executed crypto vm .opcodeCheckLockTimeVerify n →
        if n < lockTimeThreshold then n < povDAAScore else (n : ℤ) < pastMedianTime) ∧
      (¬ isCoinBase tx → ∀ n, n &&& sequenceLockTimeDisabled = 0 → Executed crypto vm .opcodeCheckSequenceVerify n →
        entry.blockDAAScore + n % 2 ^ 32 ≤ povDAAScore) := by
  obtain ⟨⟨⟩, -, hvalid⟩ := bind_eq_ok.mp hvalid
  obtain ⟨totalIn, -, hvalid⟩ := bind_eq_ok.mp hvalid
  obtain ⟨totalOut, -, hvalid⟩ := bind_eq_ok.mp hvalid
  obtain ⟨⟨⟩, hlock, hvalid⟩ := bind_eq_ok.mp hvalid
  obtain ⟨⟨⟩, -, hvalid⟩ := bind_eq_ok.mp hvalid
  obtain ⟨⟨⟩, hscripts, -⟩ := bind_eq_ok.mp hvalid
  obtain ⟨⟨⟩, hscripts, hmissing⟩ := bind_eq_ok.mp hscripts
  have hmissing : missingOutpoints (tx.inputs.zip entries) = [] := by
    by_contra hne
    rw [if_pos hne] at hmissing
    cases hmissing
  obtain ⟨entry, hentry, hmem⟩ := entry_of_missingOutpoints_eq_nil hlen hmissing hinput
  have hexecute := validateScripts_ok hscripts (List.getElem?_zip_eq_some.mpr ⟨hinput, hentry⟩)
  rw [hengine, Nat.zero_add, executeWithEngine] at hexecute
  split at hexecute
  · cases hexecute
  rename_i vm hvm
  have hok : (exec (execute crypto (maxSteps + 1)) vm).1 = .ok () := by
    split at hexecute
    · cases hexecute
    · assumption
  refine ⟨entry, vm, hentry, hvm, fun n hpos hexecuted => ?_, fun hcoinbase n hn hexecuted => ?_⟩
  · obtain ⟨vm₁, op, bytes, u, vm₂, ⟨htx, hidx⟩, hdepth, htop, rfl, hcall⟩ := hexecuted.call hvm hok
    obtain ⟨hle, hkind, input', hinput', hsequence⟩ := checkLockTimeVerify_ok hdepth htop hcall
    rw [htx] at hle hkind
    rw [htx, hidx, GoSlice.index_natCast, hinput] at hinput'
    cases hinput'
    have hfinalized : isFinalizedTransaction tx povDAAScore pastMedianTime := by
      unfold validateTransactionInContextIgnoringUTXO at hfinal
      split_ifs at hfinal with hfinalized
      simpa using hfinalized
    have hlt := lockTime_lt_of_isFinalizedTransaction hfinalized (by omega) (mem_of_getElem? hinput) hsequence
    have htoUint64 : (toUint64 pastMedianTime : ℤ) = pastMedianTime := by
      unfold toUint64
      omega
    split_ifs at hlt ⊢ <;> omega
  obtain ⟨vm₁, op, bytes, u, vm₂, ⟨htx, hidx⟩, hdepth, htop, rfl, hcall⟩ := hexecuted.call hvm hok
  obtain ⟨input', hinput', henabled, hle⟩ := checkSequenceVerify_ok hdepth htop hn hcall
  rw [htx, hidx, GoSlice.index_natCast, hinput] at hinput'
  cases hinput'
  rw [and_sequenceLockTimeMask, and_sequenceLockTimeMask] at hle
  have hentryLock := entry_le_sequenceLockOf (-1) hmem henabled (hentries entry (mem_of_getElem? hentry))
  obtain ⟨lock, hlockOf, hactive⟩ := bind_eq_ok.mp hlock
  rw [calcTxSequenceLockFromReferencedUTXOEntries, if_neg hcoinbase, if_neg (not_not.mpr hmissing)] at hlockOf
  cases hlockOf
  have hscoreInt : toInt64 povDAAScore = povDAAScore := toInt64_of_lt (by omega) (by omega)
  split_ifs at hactive with hinactive
  rw [sequenceLockActive, hscoreInt] at hinactive
  have hlt : sequenceLockOf (-1) (tx.inputs.zip entries) < povDAAScore := by simpa using hinactive
  have hpassed : entry.blockDAAScore + input.sequence % 2 ^ 32 ≤ povDAAScore :=
    Int.ofNat_le.mp (Int.le_of_sub_one_lt (hentryLock.trans_lt hlt))
  exact (Nat.add_le_add_left hle _).trans hpassed

def lockedSpend (lockTime sequence : ℕ) (subnetworkID : DomainSubnetworkID) : DomainTransaction :=
  ⟨0, [⟨⟨0, 0⟩, [], sequence, 0⟩], [], lockTime, subnetworkID, 0, [], 0⟩

def lockedEntry : UTXOEntry := ⟨1000, ⟨[0x55, 0xb0, 0x5a, 0xb1, 0x51], 0⟩, 5, false⟩

def lockedValidator : TransactionValidator := ⟨100, false, 204, 18, 150, fun _ _ => 0, executeWithEngine sampleCrypto⟩

def engineAfter (vm : Engine) : ℕ → Engine
  | 0 => vm
  | k + 1 => (exec (step sampleCrypto) (engineAfter vm k)).2

theorem running_engineAfter {vm : Engine} {k : ℕ}
    (h : ∀ j < k, (exec (step sampleCrypto) (engineAfter vm j)).1 = .ok false) :
    Running sampleCrypto vm (engineAfter vm k) := by
  induction k with
  | zero => exact .refl
  | succ k ih =>
    exact (ih fun j hj => h j (by omega)).tail (Prod.ext (h k (Nat.lt_succ_self k)) rfl)

theorem executed_lockedEntry (tx : DomainTransaction) (htx : tx = lockedSpend 5 10 0 ∨ tx = lockedSpend 5 10 1) :
    ∃ vm, newEngine lockedEntry.scriptPublicKey tx (0 : ℕ) = .ok vm ∧
      Executed sampleCrypto vm .opcodeCheckLockTimeVerify 5 ∧ Executed sampleCrypto vm .opcodeCheckSequenceVerify 10 := by
  rcases htx with rfl | rfl <;>
  · refine ⟨_, rfl, ⟨_, _, _, [5], running_engineAfter (k := 1) ?_, rfl, rfl, rfl, rfl, rfl, rfl⟩,
      ⟨_, _, _, [10], running_engineAfter (k := 3) ?_, rfl, rfl, rfl, rfl, rfl, rfl⟩⟩ <;> decide +kernel

theorem lock_times_passed_spend : validateTransactionInContextIgnoringUTXO (lockedSpend 5 10 0) 16 0 = .ok () ∧
    lockedValidator.validateTransactionInContextAndPopulateFee 16 (lockedSpend 5 10 0) [some lockedEntry] = .ok 1000 ∧
    ∃ vm, newEngine lockedEntry.scriptPublicKey (lockedSpend 5 10 0) (0 : ℕ) = .ok vm ∧
      Executed sampleCrypto vm .opcodeCheckLockTimeVerify 5 ∧ Executed sampleCrypto vm .opcodeCheckSequenceVerify 10 ∧
      (if 5 < lockTimeThreshold then 5 < 16 else ((5 : ℕ) : ℤ) < 0) ∧ lockedEntry.blockDAAScore + 10 % 2 ^ 32 ≤ 16 := by
  have hfinal : validateTransactionInContextIgnoringUTXO (lockedSpend 5 10 0) 16 0 = .ok () := by decide +kernel
  have hvalid : lockedValidator.validateTransactionInContextAndPopulateFee 16 (lockedSpend 5 10 0)
      [some lockedEntry] = .ok 1000 := by decide +kernel
  obtain ⟨vm, hvm, hlock, hsequence⟩ := executed_lockedEntry (lockedSpend 5 10 0) (.inl rfl)
  obtain ⟨entry, vm', hentry, hvm', hlockTime, hrelative⟩ := lock_times_passed (v := lockedValidator) (i := 0) rfl rfl
    (by decide) (by decide) (by decide) (by simp [lockedEntry]) hfinal hvalid rfl
  obtain rfl : lockedEntry = entry := Option.some.inj (Option.some.inj hentry)
  obtain rfl : vm' = vm := Except.ok.inj (hvm'.symm.trans hvm)
  exact ⟨hfinal, hvalid, vm', hvm, hlock, hsequence, hlockTime 5 (by decide) hlock,
    hrelative (by decide) 10 (by decide) hsequence⟩

/-- A coinbase transaction with an input passes both validations from DAA score 6, one score after the output. -/
theorem coinbase_ignores_sequence_lock :
    validateTransactionInContextIgnoringUTXO (lockedSpend 5 10 subnetworkIDCoinbase) 6 0 = .ok () ∧
    lockedValidator.validateTransactionInContextAndPopulateFee 6 (lockedSpend 5 10 subnetworkIDCoinbase)
      [some lockedEntry] = .ok 1000 ∧
    ∃ vm, newEngine lockedEntry.scriptPublicKey (lockedSpend 5 10 subnetworkIDCoinbase) (0 : ℕ) = .ok vm ∧
      Executed sampleCrypto vm .opcodeCheckSequenceVerify 10 ∧ 10 &&& sequenceLockTimeDisabled = 0 ∧
      ¬ lockedEntry.blockDAAScore + 10 % 2 ^ 32 ≤ 6 := by
  obtain ⟨vm, hvm, -, hsequence⟩ := executed_lockedEntry (lockedSpend 5 10 subnetworkIDCoinbase) (.inr rfl)
  exact ⟨by decide +kernel, by decide +kernel, vm, hvm, hsequence, by decide, by decide⟩

end TransactionValidator
end Kaspad
