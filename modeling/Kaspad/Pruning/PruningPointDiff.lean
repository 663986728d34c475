import Kaspad.ConsensusState.UTXOValid
import Kaspad.Pruning.UpdatePruningPoint
import Kaspad.UTXO.DiffCompose

/-! # The UTXO diff between two pruning points

`calculateDiffBetweenPreviousAndCurrentPruningPoints` of `pruningmanager.go` climbs the diff children of both
pruning points, always from the one with less blue work, until it stands at one block.
`calculateDiffBetweenPreviousAndCurrentPruningPointsUsingAcceptanceData` replays the accepted transactions of the
selected chain. Both give the difference of the two past UTXO sets, unless the climb goes past the virtual selected
parent: it does where the previous pruning point comes to a block with the same blue work.
-/

namespace Kaspad.Pruning
open Lib Lib.ParentChain Ghostdag ConsensusState MutableUTXODiff List AList GoMap

/-! ## The climb -/

section
variable {pm : UpdateManager} {children : GoMap DomainHash DomainHash} {v : DomainHash}

/-- On the path of diff children from `b` every block has GHOSTDAG data, and blue work does not fall. -/
structure Climbable (pm : UpdateManager) (children : GoMap DomainHash DomainHash) (b : DomainHash) : Prop where
  data : ∀ x, OnChain children.lookup x b → ∃ data, pm.stores.data.lookup x = some data
  work : ∀ x c, OnChain children.lookup x b → children.lookup x = some c → pm.stores.work x ≤ pm.stores.work c

variable {b c : DomainHash} (h : Climbable pm children b)
include h

theorem Climbable.child (hc : children.lookup b = some c) : Climbable pm children c where
  data x hx := h.data x (onChain_step hc hx)
  work x y hx hy := h.work x y (onChain_step hc hx) hy

theorem Climbable.get : ∃ data, pm.stores.get (some b) false = .ok data ∧ data.blueWork = pm.stores.work b := by
  obtain ⟨data, hdata⟩ := h.data b .refl
  exact ⟨data, get_eq hdata, by rw [Stores.work, hdata]; rfl⟩

omit h
variable {l : List DomainHash}
include h in
theorem Climbable.work_le (hb : Descent children.lookup b l v) : pm.stores.work b ≤ pm.stores.work v := by
  induction l generalizing b with
  | nil =>
    obtain rfl : b = v := hb
    exact le_rfl
  | cons x l ih =>
    obtain ⟨rfl, c, hc, hrest⟩ := hb
    exact (h.work x c .refl hc).trans (ih (h.child hc) hrest)

/-- Whichever of the two has less work climbs, so they meet. -/
theorem climb_meets (hroot : children.lookup v = none) {n : ℕ} {current previous : DomainHash}
    {cs ps : List DomainHash} (hcurrent : Climbable pm children current) (hprevious : Climbable pm children previous)
    (hc : Descent children.lookup current cs v) (hp : Descent children.lookup previous ps v)
    (htie : ∀ x ∈ ps, pm.stores.work x = pm.stores.work v → x ∈ cs) (hn : cs.length + ps.length < n) :
    ∃ fromPrevious fromCurrent meeting,
      climb pm children n current previous (pm.stores.work current) (pm.stores.work previous) =
        .ok (fromPrevious, fromCurrent) ∧
      Descent children.lookup previous fromPrevious meeting ∧ Descent children.lookup current fromCurrent meeting := by
  induction n generalizing current previous cs ps with
  | zero => omega
  | succ n ih =>
    have hcle := hcurrent.work_le hc
    have hple := hprevious.work_le hp
    rw [climb]
    by_cases hless : pm.stores.work previous < pm.stores.work current
    · cases ps with
      | nil =>
        obtain rfl : previous = v := hp
        omega
      | cons x ps =>
        obtain ⟨rfl, child, hchild, hrest⟩ := hp
        obtain ⟨data, hget, hwork⟩ := (hprevious.child hchild).get
        obtain ⟨fromPrevious, fromCurrent, meeting, hclimb, hfromPrevious, hfromCurrent⟩ := ih hcurrent
          (hprevious.child hchild) hc hrest (fun y hy => htie y (mem_cons_of_mem _ hy))
          (by rw [length_cons] at hn; omega)
        refine ⟨x :: fromPrevious, fromCurrent, meeting, ?_, ⟨rfl, child, hchild, hfromPrevious⟩, hfromCurrent⟩
        rw [if_pos hless]
        simp only [lookupOr, hchild, hget, Except.mapError, hwork, hclimb, ok_bind, pure, Except.pure]
    rw [if_neg hless]
    by_cases hsame : current = previous
    · exact ⟨[], [], current, if_pos hsame, hsame.symm, rfl⟩
    rw [if_neg hsame]
    cases cs with
    | nil =>
      -- The current pruning point has climbed to `v`, and the previous one stands at a tie.
      obtain rfl : current = v := hc
      cases ps with
      | nil => exact absurd hp.symm hsame
      | cons x ps =>
        obtain ⟨rfl, -⟩ := hp
        cases htie x mem_cons_self (by omega)
    | cons x cs =>
      have hwalk := hc
      obtain ⟨rfl, child, hchild, hrest⟩ := hc
      obtain ⟨data, hget, hwork⟩ := (hcurrent.child hchild).get
      have htie' : ∀ y ∈ ps, pm.stores.work y = pm.stores.work v → y ∈ cs := by
        intro y hy hywork
        refine (mem_cons.mp (htie y hy hywork)).resolve_left fun hyx => ?_
        -- Otherwise each pruning point is on the path of the other.
        subst hyx
        have hmem : previous ∈ y :: cs := by
          cases ps with
          | nil => cases hy
          | cons z ps =>
            obtain rfl := hp.1
            exact htie z mem_cons_self (by omega)
        have hlt := hp.length_lt hroot hy hsame hwalk
        have hlt' := hwalk.length_lt hroot hmem (Ne.symm hsame) hp
        omega
      obtain ⟨fromPrevious, fromCurrent, meeting, hclimb, hfromPrevious, hfromCurrent⟩ := ih
        (hcurrent.child hchild) hprevious hrest hp htie' (by rw [length_cons] at hn; omega)
      refine ⟨fromPrevious, x :: fromCurrent, meeting, ?_, hfromPrevious, ⟨rfl, child, hchild, hfromCurrent⟩⟩
      simp only [lookupOr, hchild, hget, Except.mapError, hwork, hclimb, ok_bind, pure, Except.pure]

/-- At a block with the blue work of `v` the previous side waits, and the current side does not come there. -/
theorem climb_fails (hroot : children.lookup v = none) {n : ℕ} {current previous x : DomainHash} {cs : List DomainHash}
    (hcurrent : Climbable pm children current) (hprevious : Climbable pm children previous)
    (hc : Descent children.lookup current cs v) (hx : OnChain children.lookup x previous)
    (hwork : pm.stores.work x = pm.stores.work v) (hnot : ¬ OnChain children.lookup x current)
    (result : List DomainHash × List DomainHash) :
    climb pm children n current previous (pm.stores.work current) (pm.stores.work previous) ≠ .ok result := by
  induction n generalizing current previous cs result with
  | zero => exact nofun
  | succ n ih =>
    have hle := hcurrent.work_le hc
    rw [climb]
    by_cases hless : pm.stores.work previous < pm.stores.work current
    · rw [if_pos hless]
      cases hchild : children.lookup previous with
      | none => simp [lookupOr, hchild]
      | some child =>
        obtain ⟨data, hget, hdata⟩ := (hprevious.child hchild).get
        have hx' := ((onChain_iff hchild).mp hx).resolve_left fun heq => by
          rw [← heq, hwork] at hless
          omega
        simp only [lookupOr, hchild, hget, Except.mapError, hdata, ok_bind]
        intro h
        obtain ⟨rest, hrest, -⟩ := bind_eq_ok.mp h
        exact ih hcurrent (hprevious.child hchild) hc hx' hnot rest hrest
    rw [if_neg hless]
    by_cases hsame : current = previous
    · exact absurd (hsame ▸ hx) hnot
    rw [if_neg hsame]
    cases cs with
    | nil =>
      obtain rfl : current = v := hc
      simp [lookupOr, hroot]
    | cons y cs =>
      obtain ⟨rfl, child, hchild, hrest⟩ := hc
      obtain ⟨data, hget, hdata⟩ := (hcurrent.child hchild).get
      simp only [lookupOr, hchild, hget, Except.mapError, hdata, ok_bind]
      intro h
      obtain ⟨found, hfound, -⟩ := bind_eq_ok.mp h
      exact ih (hcurrent.child hchild) hprevious hrest hx (fun h => hnot (onChain_step hchild h)) found hfound

theorem Climbable.length_le (h : Climbable pm children b) (hroot : children.lookup v = none)
    (hb : Descent children.lookup b l v) : l.length ≤ pm.stores.data.size := by
  have hkeys : ∀ x ∈ l, x ∈ pm.stores.data.keys := by
    intro x hx
    obtain ⟨l₁, l₂, -, hbefore, -⟩ := hb.of_mem hx
    obtain ⟨data, hdata⟩ := h.data x hbefore.onChain
    exact mem_keys.mp (lookup_isSome.mp (Option.isSome_of_mem hdata))
  have hlen := (subperm_of_subset (hb.nodup_of_root hroot) hkeys).length_le
  simpa [GoMap.size, AList.keys, List.keys] using hlen

theorem mem_keys_of_descent {b x : DomainHash} (h : Descent children.lookup b l v) (hx : x ∈ l) :
    x ∈ children.keys := by
  induction l generalizing b with
  | nil => cases hx
  | cons y l ih =>
    obtain ⟨rfl, c, hc, hrest⟩ := h
    rcases mem_cons.mp hx with rfl | hx
    · exact mem_keys.mp (lookup_isSome.mp (Option.isSome_of_mem hc))
    · exact ih hrest hx

theorem length_le_size (hroot : children.lookup v = none) {b : DomainHash}
    (h : Descent children.lookup b l v) : l.length ≤ children.size := by
  have hlen := (subperm_of_subset (h.nodup_of_root hroot) fun _ => mem_keys_of_descent h).length_le
  simpa [GoMap.size, AList.keys, List.keys] using hlen

end

/-- Diff children lead to the virtual selected parent, and stored diffs lead back from them. -/
structure DiffChildren (known : DomainOutpoint → UTXOEntry → Prop) (d : PruningDatabase)
    (past : DomainHash → UTXOSet) (virtualSelectedParent : DomainHash) : Prop where
  root : d.utxoDiffChildStore.lookup virtualSelectedParent = none
  path : ∀ b, (d.utxoDiffStore.lookup b).isSome = true → OnChain d.utxoDiffChildStore.lookup virtualSelectedParent b
  diff : ∀ b c, d.utxoDiffChildStore.lookup b = some c →
    ∃ diff, d.utxoDiffStore.lookup b = some diff ∧ diff.IsDiff (past c) (past b)
  within : ∀ b, (past b).Within known

section
variable {known : DomainOutpoint → UTXOEntry → Prop} {d : PruningDatabase} {past : DomainHash → UTXOSet}
  {vsp : DomainHash}

theorem accumulate_isDiff (hk : DAAScoreDetermines known) (h : DiffChildren known d past vsp) {l : List DomainHash}
    {b meeting : DomainHash} (hwalk : Descent d.utxoDiffChildStore.lookup b l meeting) :
    ∃ diff, accumulate d.utxoDiffStore l = .ok diff ∧ diff.IsDiff (past meeting) (past b) := by
  induction l generalizing b with
  | nil =>
    obtain rfl : b = meeting := hwalk
    exact ⟨.new, rfl, isDiff_new (past b)⟩
  | cons x l ih =>
    obtain ⟨rfl, c, hc, hrest⟩ := hwalk
    obtain ⟨accumulated, haccumulate, hdiff⟩ := ih hrest
    obtain ⟨utxoDiff, hutxoDiff, hstep⟩ := h.diff x c hc
    obtain ⟨r, hr, hrdiff⟩ := withDiff_isDiff hk hdiff hstep (h.within _) (h.within _) (h.within _)
    refine ⟨r, ?_, hrdiff⟩
    unfold accumulate at haccumulate ⊢
    rw [reverse_cons, foldlM_append, haccumulate]
    simp only [withDiff] at hr
    simp only [foldlM_cons, foldlM_nil, lookupOr, hutxoDiff, hr, Except.mapError, ok_bind, pure,
      Except.pure]

variable {pm : UpdateManager} {current previous : DomainHash}

/-- Every block with the blue work of the virtual selected parent that the previous pruning point climbs to is also
above the current one. -/
def TiesShared (pm : UpdateManager) (children : GoMap DomainHash DomainHash) (vsp current previous : DomainHash) :
    Prop :=
  ∀ x, OnChain children.lookup x previous → pm.stores.work x = pm.stores.work vsp → OnChain children.lookup x current

section
variable (h : DiffChildren known d past vsp) (hccurrent : Climbable pm d.utxoDiffChildStore current)
  (hcprevious : Climbable pm d.utxoDiffChildStore previous) (hne : current ≠ pm.genesisHash)
  (hprevious : previousPruningPoint pm = .ok previous) (hcstored : (d.utxoDiffStore.lookup current).isSome = true)
include h hccurrent hcprevious hne hprevious hcstored

theorem calculateDiff_isDiff (hk : DAAScoreDetermines known) (hpstored : (d.utxoDiffStore.lookup previous).isSome = true)
    (htie : TiesShared pm d.utxoDiffChildStore vsp current previous) :
    ∃ diff, calculateDiffBetweenPreviousAndCurrentPruningPoints pm d current = .ok diff ∧
      diff.IsDiff (past previous) (past current) := by
  obtain ⟨cs, hcs⟩ := exists_descent (h.path current hcstored)
  obtain ⟨ps, hps⟩ := exists_descent (h.path previous hpstored)
  have hrounds : cs.length + ps.length < (pm.stores.data.size + 2) ^ 2 := by
    have hclen := hccurrent.length_le h.root hcs
    have hplen := hcprevious.length_le h.root hps
    nlinarith
  have htie' : ∀ x ∈ ps, pm.stores.work x = pm.stores.work vsp → x ∈ cs := by
    intro x hx hwork
    obtain ⟨l₁, l₂, -, hbefore, hafter⟩ := hps.of_mem hx
    obtain ⟨l, hl⟩ := exists_descent (htie x hbefore.onChain hwork)
    rw [← (hl.append hafter).unique h.root hcs]
    simp
  obtain ⟨fromPrevious, fromCurrent, meeting, hclimb, hfromPrevious, hfromCurrent⟩ :=
    climb_meets h.root hccurrent hcprevious hcs hps htie' hrounds
  obtain ⟨oldDiff, hold, holdDiff⟩ := accumulate_isDiff hk h hfromPrevious
  obtain ⟨newDiff, hnew, hnewDiff⟩ := accumulate_isDiff hk h hfromCurrent
  obtain ⟨diff, hdiff, hisDiff⟩ := diffFrom_isDiff hk holdDiff hnewDiff (h.within _) (h.within _) (h.within _)
  obtain ⟨cdata, hcget, hcwork⟩ := hccurrent.get
  obtain ⟨pdata, hpget, hpwork⟩ := hcprevious.get
  refine ⟨diff, ?_, hisDiff⟩
  rw [calculateDiffBetweenPreviousAndCurrentPruningPoints, if_neg hne]
  simp only [hprevious, hcget, hpget, Except.mapError, hcwork, hpwork, hclimb, hold, hnew, hdiff, ok_bind]

theorem tiesShared_of_calculateDiff {diff : MutableUTXODiff}
    (hdiff : calculateDiffBetweenPreviousAndCurrentPruningPoints pm d current = .ok diff) :
    TiesShared pm d.utxoDiffChildStore vsp current previous := by
  intro x hx hwork
  by_contra hnot
  obtain ⟨cs, hcs⟩ := exists_descent (h.path current hcstored)
  obtain ⟨cdata, hcget, hcwork⟩ := hccurrent.get
  obtain ⟨pdata, hpget, hpwork⟩ := hcprevious.get
  rw [calculateDiffBetweenPreviousAndCurrentPruningPoints, if_neg hne] at hdiff
  simp only [hprevious, hcget, hpget, Except.mapError, hcwork, hpwork, ok_bind] at hdiff
  obtain ⟨result, hclimb, -⟩ := bind_eq_ok.mp hdiff
  exact climb_fails h.root hccurrent hcprevious hcs hx hwork hnot result hclimb

end

/-! ## Restoring a past UTXO set -/

variable (hk : DAAScoreDetermines known) (h : DiffChildren known d past vsp) {V : UTXOSet} (hV : V.Within known)
  {diff : MutableUTXODiff} (hvsp : d.utxoDiffStore.lookup vsp = some diff) (hdiff : diff.IsDiff V (past vsp))
  {b : DomainHash}

include hk h hV hvsp hdiff

theorem collectUTXODiffs_isDiff {l : List DomainHash} (hwalk : Descent d.utxoDiffChildStore.lookup b l vsp) {n : ℕ}
    (hn : l.length ≤ n) : ∃ collected r,
      collectUTXODiffs d.utxoDiffStore d.utxoDiffChildStore (n + 1) b = .ok collected ∧
      collected.reverse.foldlM withDiffInPlace .new = .ok r ∧ r.IsDiff V (past b) := by
  induction l generalizing b n with
  | nil =>
    obtain rfl : b = vsp := hwalk
    obtain ⟨r, hr, hrdiff⟩ := withDiff_isDiff hk (isDiff_new V) hdiff hV hV (h.within b)
    refine ⟨[diff], r, ?_, by simpa [withDiff] using hr, hrdiff⟩
    simp [collectUTXODiffs, hvsp, h.root]
  | cons x l ih =>
    obtain ⟨rfl, c, hc, hrest⟩ := hwalk
    obtain ⟨utxoDiff, hutxoDiff, hstep⟩ := h.diff x c hc
    obtain _ | n := n
    · cases hn
    obtain ⟨collected, r, hcollect, hfold, hrdiff⟩ := ih hrest (Nat.le_of_succ_le_succ hn)
    obtain ⟨r', hr', hrdiff'⟩ := withDiff_isDiff hk hrdiff hstep hV (h.within c) (h.within x)
    refine ⟨utxoDiff :: collected, r', ?_, ?_, hrdiff'⟩
    · unfold collectUTXODiffs
      simp only [hutxoDiff, hc, hcollect]
      rfl
    · rw [reverse_cons, foldlM_append, hfold]
      simpa [withDiff] using hr'

/-- The walk over the diff children ends, and its diff turns the virtual UTXO set into the past of the block. -/
theorem restorePastUTXO_restores (hb : (d.utxoDiffStore.lookup b).isSome = true) : ∃ r,
    restorePastUTXO d.utxoDiffStore d.utxoDiffChildStore b = .ok r ∧ r.ValidOn V ∧ r.applyTo V = past b := by
  obtain ⟨l, hl⟩ := exists_descent (h.path b hb)
  obtain ⟨collected, r, hcollect, hfold, hr⟩ := collectUTXODiffs_isDiff hk h hV hvsp hdiff hl
    (length_le_size h.root hl)
  refine ⟨r, ?_, hr.valid_canonical.1, hr.applyTo_eq⟩
  rw [restorePastUTXO, hcollect, ok_bind, hfold]
  rfl

end

/-! ## By acceptance data -/

section
variable {Digest Multiset : Type} {m : UTXOManager Digest Multiset} {v : BlockValidator} {V : UTXOSet} {daaScore : ℕ}

def replay (daaScore : ℕ) (accepted : List TransactionAcceptanceData) (utxoDiff : MutableUTXODiff) :
    Except PruningError MutableUTXODiff :=
  (accepted.filter (·.isAccepted)).foldlM (fun (utxoDiff : MutableUTXODiff) tx =>
    (utxoDiff.addTransaction tx.transaction tx.transactionInputUTXOEntries daaScore).mapError .diff) utxoDiff

variable {accepted : List DomainTransaction} {utxoDiff : MutableUTXODiff}
  {accepted' : List DomainTransaction} {S S' : UTXOSet}

theorem replay_run (hm : SoundStore m v) (hV : V.Within (Created m)) {acceptances : List TransactionAcceptanceData}
    (h : Run m daaScore accepted S acceptances accepted' S') (hdiff : utxoDiff.IsDiff V S) :
    ∃ utxoDiff', replay daaScore acceptances utxoDiff = .ok utxoDiff' ∧ utxoDiff'.IsDiff V S' := by
  induction h generalizing utxoDiff with
  | nil => exact ⟨utxoDiff, rfl, hdiff⟩
  | skip hnot _ ih =>
    obtain ⟨utxoDiff', hreplay, hdiff'⟩ := ih hdiff
    refine ⟨utxoDiff', ?_, hdiff'⟩
    rwa [replay, filter_cons_of_neg (by simp [hnot])]
  | accept hledger hexec _ _ ih =>
    obtain ⟨utxoDiff₁, hadd, hdiff₁⟩ := hexec.addTransaction_isDiff hm hledger hV hdiff daaScore
    obtain ⟨utxoDiff', hreplay, hdiff'⟩ := ih hdiff₁
    refine ⟨utxoDiff', ?_, hdiff'⟩
    rw [replay, filter_cons_of_pos rfl, foldlM_cons, hadd]
    exact hreplay

theorem replay_runBlocks (hm : SoundStore m v) (hV : V.Within (Created m)) {acceptanceData : AcceptanceData}
    (h : RunBlocks m daaScore accepted S acceptanceData accepted' S') (hdiff : utxoDiff.IsDiff V S) :
    ∃ utxoDiff', replay daaScore (acceptanceData.flatMap (·.transactionAcceptanceData)) utxoDiff = .ok utxoDiff' ∧
      utxoDiff'.IsDiff V S' := by
  induction h generalizing utxoDiff with
  | nil => exact ⟨utxoDiff, rfl, hdiff⟩
  | block hrun _ ih =>
    obtain ⟨utxoDiff₁, hreplay, hdiff₁⟩ := replay_run hm hV hrun hdiff
    obtain ⟨utxoDiff', hrest, hdiff'⟩ := ih hdiff₁
    refine ⟨utxoDiff', ?_, hdiff'⟩
    rw [flatMap_cons, replay, filter_append, foldlM_append]
    exact (congrArg (· >>= _) hreplay).trans hrest

variable [AddCommGroup Multiset] [DecidableEq Digest]

/-- The blocks of a selected chain above `a`, whose past UTXO set is `S`, as they were resolved. -/
inductive Resolved (m : UTXOManager Digest Multiset) (pm : UpdateManager) (d : PruningDatabase) :
    DomainHash → UTXOSet → List DomainHash → UTXOSet → Prop
  | nil {a : DomainHash} {S : UTXOSet} : Resolved m pm d a S [] S
  | block {a b : DomainHash} {blocks : List DomainHash} {block : DomainBlock} {ghostdagData : BlockGHOSTDAGData}
      {S S' V : UTXOSet} {ms multiset : Multiset} {acceptanceData : AcceptanceData}
      {multisetStore : GoMap DomainHash Multiset} {selectedParentPastUTXO utxoDiff : MutableUTXODiff} :
      b ≠ m.genesisHash →
      m.blocks.lookup b = some block →
      m.ghostdagDataStore.data.lookup b = some ghostdagData →
      ghostdagData.selectedParent = some a →
      V.Within (Created m) →
      selectedParentPastUTXO.IsDiff V S →
      multisetStore.lookup a = some ms →
      calculatePastUTXOAndAcceptanceData m V multisetStore b selectedParentPastUTXO =
        .ok (utxoDiff, acceptanceData, multiset) →
      verifyUTXO m V block b utxoDiff acceptanceData multiset = .ok () →
      d.acceptanceDataStore.lookup b = some acceptanceData →
      pm.headerDAAScore.lookup b = m.daaScore.lookup b →
      Resolved m pm d b (utxoDiff.applyTo V) blocks S' →
      Resolved m pm d a S (b :: blocks) S'

variable {g : Ghostdag.Manager} {dag : List Block} {pm : UpdateManager} {d : PruningDatabase}

def replayBlock (pm : UpdateManager) (d : PruningDatabase) (utxoDiff : MutableUTXODiff) (child : DomainHash) :
    Except PruningError MutableUTXODiff := do
  let acceptanceData ← lookupOr d.acceptanceDataStore child (.notFound child)
  let daaScore ← lookupOr pm.headerDAAScore child (.notFound child)
  replay daaScore (acceptanceData.flatMap (·.transactionAcceptanceData)) utxoDiff

variable {a : DomainHash}

theorem replay_resolved (hs : SoundDag g dag m v) (hV : V.Within (Created m))
    {chain : List DomainHash} (h : Resolved m pm d a S chain S')
    (hledger : ChainLedger m a accepted S) (hdiff : utxoDiff.IsDiff V S) :
    ∃ utxoDiff', chain.foldlM (replayBlock pm d) utxoDiff = .ok utxoDiff' ∧ utxoDiff'.IsDiff V S' := by
  induction h generalizing utxoDiff accepted with
  | nil => exact ⟨utxoDiff, rfl, hdiff⟩
  | @block a b blocks _ _ _ _ _ _ _ _ _ _ _ hne hblock hd hsp hV' hspDiff hms hpast hverify hacceptance hscore _ ih =>
    obtain ⟨accepted', daaScore, others, merged, hstep, -⟩ :=
      hs.block_step hne hblock hd hsp hV' hspDiff hms hpast hverify hledger
    obtain ⟨utxoDiff₁, hreplay, hdiff₁⟩ := replay_runBlocks hs.toSoundStore hV hstep.run hdiff
    obtain ⟨utxoDiff', hrest, hdiff'⟩ := ih hstep.ledger hdiff₁
    refine ⟨utxoDiff', ?_, hdiff'⟩
    rw [hstep.score] at hscore
    have hround : replayBlock pm d utxoDiff b = .ok utxoDiff₁ := by
      simp only [replayBlock, lookupOr, hacceptance, hscore, hreplay, ok_bind]
    rw [foldlM_cons, hround]
    exact hrest

/-- The replay gives the difference of the two sets, and the climb gives the same one exactly if it meets no tie of blue
work that keeps it from going on. -/
theorem pruning_point_diffs_agree (hs : SoundDag g dag m v) {past : DomainHash → UTXOSet}
    {current previous virtualSelectedParent : DomainHash} {chain : List DomainHash} {ms : Multiset}
    {acceptanceData : AcceptanceData} (hdiffs : DiffChildren (Created m) d past virtualSelectedParent)
    (hcurrent : Climbable pm d.utxoDiffChildStore current) (hclimb : Climbable pm d.utxoDiffChildStore previous)
    (hne : current ≠ pm.genesisHash) (hprevious : previousPruningPoint pm = .ok previous)
    (hcurrentStored : (d.utxoDiffStore.lookup current).isSome = true)
    (hpreviousStored : (d.utxoDiffStore.lookup previous).isSome = true)
    (hchain : pm.selectedChain current previous = .ok chain)
    (hvalid : UTXOValid m previous (past previous) ms acceptanceData)
    (hresolved : Resolved m pm d previous (past previous) chain (past current)) :
    ∃ diff', calculateDiffUsingAcceptanceData pm d current = .ok diff' ∧
      diff'.ValidOn (past previous) ∧ diff'.applyTo (past previous) = past current ∧
      ((∃ diff, calculateDiffBetweenPreviousAndCurrentPruningPoints pm d current = .ok diff ∧ diff.Same diff' ∧
          diff.ValidOn (past previous) ∧ diff.applyTo (past previous) = past current) ↔
        TiesShared pm d.utxoDiffChildStore virtualSelectedParent current previous) := by
  obtain ⟨accepted, hledger⟩ := hvalid.chainLedger hs
  obtain ⟨diff', hreplay, hisDiff'⟩ := replay_resolved hs (hdiffs.within previous) hresolved hledger
    (isDiff_new (past previous))
  have hdiff' : calculateDiffUsingAcceptanceData pm d current = .ok diff' := by
    rw [calculateDiffUsingAcceptanceData, if_neg hne]
    simp only [hprevious, hchain, ok_bind]
    exact hreplay
  refine ⟨diff', hdiff', hisDiff'.valid_canonical.1, hisDiff'.applyTo_eq, ?_, fun htie => ?_⟩
  · rintro ⟨diff, hdiff, -⟩
    exact tiesShared_of_calculateDiff hdiffs hcurrent hclimb hne hprevious hcurrentStored hdiff
  obtain ⟨diff, hdiff, hisDiff⟩ := calculateDiff_isDiff hdiffs hcurrent hclimb hne hprevious hcurrentStored
    hs.daaScoreDetermines hpreviousStored htie
  exact ⟨diff, hdiff, hisDiff.same hisDiff', hisDiff.valid_canonical.1, hisDiff.applyTo_eq⟩

theorem extend_resolved (hs : SoundDag g dag m v) {b : DomainHash} {block : DomainBlock}
    {ghostdagData : BlockGHOSTDAGData} {ms : Multiset} {acceptance : AcceptanceData}
    (hvalid : UTXOValid m a S ms acceptance) (hne : b ≠ m.genesisHash) (hblock : m.blocks.lookup b = some block)
    (hd : m.ghostdagDataStore.data.lookup b = some ghostdagData) (hsp : ghostdagData.selectedParent = some a)
    (hcalculate : (calculatePastUTXOAndAcceptanceData m S (AList.insert a ms ∅) b .new).isOk = true)
    (hverify : verifyUTXO m S block b (pastUTXO m S ms a b).1 (pastUTXO m S ms a b).2.1 (pastUTXO m S ms a b).2.2 = .ok ())
    (hacceptance : d.acceptanceDataStore.lookup b = some (pastUTXO m S ms a b).2.1)
    (hscore : pm.headerDAAScore.lookup b = m.daaScore.lookup b) :
    UTXOValid m b ((pastUTXO m S ms a b).1.applyTo S) (pastUTXO m S ms a b).2.2 (pastUTXO m S ms a b).2.1 ∧
      Resolved m pm d a S [b] ((pastUTXO m S ms a b).1.applyTo S) := by
  refine ⟨hvalid.extend hs hne hblock hd hsp hcalculate hverify, ?_⟩
  obtain ⟨_, hledger⟩ := hvalid.chainLedger hs
  cases hpast : calculatePastUTXOAndAcceptanceData m S (AList.insert a ms ∅) b .new with
  | error e =>
    rw [hpast] at hcalculate
    cases hcalculate
  | ok past =>
    have hresult : pastUTXO m S ms a b = past := by
      rw [pastUTXO, hpast]
      rfl
    rw [hresult] at hverify hacceptance ⊢
    exact .block hne hblock hd hsp hledger.within (isDiff_new S) (lookup_insert _) hpast hverify hacceptance
      hscore .nil

end

/-! ## The small ledger

Block 4 is the virtual selected parent, and the pruning point moves from genesis to block 3. -/

def ledgerThree : MutableUTXODiff × AcceptanceData × FreeAbelianGroup (List UInt8) :=
  pastUTXO sampleManager (fun _ => none) 0 1 3

def ledgerFour : MutableUTXODiff × AcceptanceData × FreeAbelianGroup (List UInt8) :=
  pastUTXO sampleManager (ledgerThree.1.applyTo fun _ => none) ledgerThree.2.2 3 4

def ledgerPast (b : DomainHash) : UTXOSet :=
  if b = 3 then ledgerThree.1.applyTo fun _ => none
  else if b = 4 then ledgerFour.1.applyTo (ledgerThree.1.applyTo fun _ => none)
  else fun _ => none

def ledgerManager : UpdateManager :=
  { chainManager with
    stores := diamondStores
    selectedChain := fun _ _ => .ok [3]
    headerDAAScore := table [(3, 1), (4, 3)] }

def ledgerDiff (daaScore : ℕ) (acceptanceData : AcceptanceData) : MutableUTXODiff :=
  (replay daaScore (acceptanceData.flatMap (·.transactionAcceptanceData)) .new).toOption.getD .new

def ledgerDatabase : PruningDatabase :=
  { chainDatabase with
    utxoDiffStore := table [(1, (ledgerDiff 1 ledgerThree.2.1).reversed), (3, (ledgerDiff 3 ledgerFour.2.1).reversed),
      (4, .new)]
    utxoDiffChildStore := table [(1, 3), (3, 4)]
    acceptanceDataStore := table [(3, ledgerThree.2.1), (4, ledgerFour.2.1)] }

theorem ledger_three : UTXOValid sampleManager 3 (ledgerPast 3) ledgerThree.2.2 ledgerThree.2.1 ∧
    Resolved sampleManager ledgerManager ledgerDatabase 1 (ledgerPast 1) [3] (ledgerPast 3) :=
  extend_resolved sample_soundDag .genesis (by decide)
    (show sampleManager.blocks.lookup 3 = some (sampleSibling 103) from rfl) rfl (by decide +kernel)
    (by decide +kernel) (by decide +kernel) rfl rfl

theorem ledger_four : UTXOValid sampleManager 4 (ledgerPast 4) ledgerFour.2.2 ledgerFour.2.1 ∧
    Resolved sampleManager ledgerManager ledgerDatabase 3 (ledgerPast 3) [4] (ledgerPast 4) :=
  extend_resolved sample_soundDag ledger_three.1 (by decide)
    (show sampleManager.blocks.lookup 4 = some sampleMerge from rfl) rfl (by decide +kernel) (by decide +kernel)
    (by decide +kernel) rfl rfl

theorem ledger_within (b : DomainHash) : (ledgerPast b).Within (Created sampleManager) := by
  by_cases hthree : b = 3
  · obtain ⟨_, hledger⟩ := ledger_three.1.chainLedger sample_soundDag
    exact hthree ▸ hledger.within
  by_cases hfour : b = 4
  · obtain ⟨_, hledger⟩ := ledger_four.1.chainLedger sample_soundDag
    exact hfour ▸ hledger.within
  intro o e ho
  simp [ledgerPast, hthree, hfour] at ho

variable {b : DomainHash}

theorem ledgerDiff_isDiff {a : DomainHash} {daaScore : ℕ} {acceptanceData : AcceptanceData}
    {accepted : List DomainTransaction}
    (h : Resolved sampleManager ledgerManager ledgerDatabase a (ledgerPast a) [b] (ledgerPast b))
    (hledger : ChainLedger sampleManager a accepted (ledgerPast a))
    (hacceptance : ledgerDatabase.acceptanceDataStore.lookup b = some acceptanceData)
    (hscore : ledgerManager.headerDAAScore.lookup b = some daaScore) :
    (ledgerDiff daaScore acceptanceData).reversed.IsDiff (ledgerPast b) (ledgerPast a) := by
  obtain ⟨utxoDiff, hfold, hdiff⟩ := replay_resolved sample_soundDag (ledger_within a) h hledger
    (isDiff_new (ledgerPast a))
  have hreplay : replay daaScore (acceptanceData.flatMap (·.transactionAcceptanceData)) .new = .ok utxoDiff := by
    rw [foldlM_cons] at hfold
    obtain ⟨utxoDiff', hround, hdone⟩ := bind_eq_ok.mp hfold
    cases hdone
    simpa only [replayBlock, lookupOr, hacceptance, hscore, ok_bind] using hround
  rw [ledgerDiff, hreplay]
  exact hdiff.reversed

variable {c : DomainHash}

theorem ledger_child (h : ledgerDatabase.utxoDiffChildStore.lookup b = some c) : b = 1 ∧ c = 3 ∨ b = 3 ∧ c = 4 := by
  simp only [ledgerDatabase, table, List.foldr, lookup_set, lookup_empty] at h
  split_ifs at h <;> simp_all

theorem ledger_diffChildren : DiffChildren (Created sampleManager) ledgerDatabase ledgerPast 4 where
  root := rfl
  path b hb := by
    have hthree : OnChain ledgerDatabase.utxoDiffChildStore.lookup 4 3 :=
      onChain_step (show ledgerDatabase.utxoDiffChildStore.lookup 3 = some 4 from rfl) .refl
    simp only [ledgerDatabase, table, List.foldr, lookup_set, lookup_empty] at hb
    split_ifs at hb with hone hbthree hfour
    · exact hone ▸ onChain_step (show ledgerDatabase.utxoDiffChildStore.lookup 1 = some 3 from rfl) hthree
    · exact hbthree ▸ hthree
    · exact hfour ▸ .refl
    · cases hb
  diff b c hc := by
    obtain ⟨rfl, rfl⟩ | ⟨rfl, rfl⟩ := ledger_child hc
    · exact ⟨_, rfl, ledgerDiff_isDiff ledger_three.2 sample_soundDag.genesis_ledger rfl rfl⟩
    obtain ⟨_, hledger⟩ := ledger_three.1.chainLedger sample_soundDag
    exact ⟨_, rfl, ledgerDiff_isDiff ledger_four.2 hledger rfl rfl⟩
  within := ledger_within

theorem restorePastUTXO_restores_genesis : ∃ r, restorePastUTXO ledgerDatabase.utxoDiffStore
    ledgerDatabase.utxoDiffChildStore 1 = .ok r ∧ r.ValidOn (ledgerPast 4) ∧ r.applyTo (ledgerPast 4) = ledgerPast 1 :=
  restorePastUTXO_restores sample_soundDag.daaScoreDetermines ledger_diffChildren (ledger_within 4) rfl
    (isDiff_new _) rfl

theorem ledger_climbable (hb : b = 1 ∨ b = 3) : Climbable ledgerManager ledgerDatabase.utxoDiffChildStore b where
  data x hx := by
    have hmem : x = 1 ∨ x = 3 ∨ x = 4 := by
      obtain rfl | ⟨y, hy, -⟩ := Relation.ReflTransGen.cases_head hx
      · exact hb.imp_right .inl
      · obtain ⟨-, rfl⟩ | ⟨-, rfl⟩ := ledger_child hy <;> simp
    have hsome : (ledgerManager.stores.data.lookup x).isSome = true := by
      obtain rfl | rfl | rfl := hmem <;> decide +kernel
    exact Option.isSome_iff_exists.mp hsome
  work x c _ hc := by
    obtain ⟨rfl, rfl⟩ | ⟨rfl, rfl⟩ := ledger_child hc <;> decide +kernel

theorem pruning_point_diffs_agree_ledger :
    ∃ diff diff', calculateDiffBetweenPreviousAndCurrentPruningPoints ledgerManager ledgerDatabase 3 = .ok diff ∧
      calculateDiffUsingAcceptanceData ledgerManager ledgerDatabase 3 = .ok diff' ∧ diff.Same diff' ∧
      diff.applyTo (ledgerPast 1) = ledgerPast 3 := by
  obtain ⟨diff', hdiff', -, -, hiff⟩ := pruning_point_diffs_agree sample_soundDag ledger_diffChildren
    (ledger_climbable (.inr rfl)) (ledger_climbable (.inl rfl)) (by decide) rfl rfl rfl rfl .genesis ledger_three.2
  have hties : TiesShared ledgerManager ledgerDatabase.utxoDiffChildStore 4 3 1 := by
    intro x hx hwork
    have hthree : ledgerDatabase.utxoDiffChildStore.lookup 1 = some 3 := rfl
    have hsplit : x = 1 ∨ OnChain ledgerDatabase.utxoDiffChildStore.lookup x 3 := Iff.mp (onChain_iff hthree) hx
    refine hsplit.resolve_left fun hone => ?_
    subst hone
    exact absurd hwork (by decide +kernel)
  obtain ⟨diff, hdiff, hsame, -, happly⟩ := hiff.mpr hties
  exact ⟨diff, diff', hdiff, hdiff', hsame, happly⟩

/-! ## A tie

Blocks 2 and 4, and blocks 3 and 5, are two chains over genesis of the same blue work. Block 5 became the virtual
selected parent after block 4, and the pruning point moves from genesis to block 3. -/

def tieManager : UpdateManager :=
  { chainManager with
    stores := ⟨table [(1, [virtualGenesisBlockHash]), (2, [1]), (3, [1]), (4, [2]), (5, [3])], ∅,
      table [(1, ⟨0, 1, none, [], [], ∅⟩), (2, ⟨1, 2, some 1, [1], [], ∅⟩), (3, ⟨1, 2, some 1, [1], [], ∅⟩),
        (4, ⟨2, 3, some 2, [2], [], ∅⟩), (5, ⟨2, 3, some 3, [3], [], ∅⟩)], ∅⟩
    virtualParents := [5]
    selectedChain := fun _ _ => .ok [3]
    headerDAAScore := table [(3, 1)] }

def tieDatabase : PruningDatabase :=
  { chainDatabase with
    utxoDiffStore := table [(1, .new), (2, .new), (3, .new), (4, .new), (5, .new)]
    utxoDiffChildStore := table [(1, 2), (2, 4), (4, 5), (3, 5)]
    acceptanceDataStore := table [(3, [])]
    tips := [4, 5] }

theorem tie_child (h : tieDatabase.utxoDiffChildStore.lookup b = some c) :
    b = 1 ∧ c = 2 ∨ b = 2 ∧ c = 4 ∨ b = 4 ∧ c = 5 ∨ b = 3 ∧ c = 5 := by
  simp only [tieDatabase, table, List.foldr, lookup_set, lookup_empty] at h
  split_ifs at h <;> simp_all

theorem tie_diffChildren : DiffChildren (fun _ _ => False) tieDatabase (fun _ _ => none) 5 where
  root := rfl
  path b hb := by
    have hfour : OnChain tieDatabase.utxoDiffChildStore.lookup 5 4 :=
      onChain_step (show tieDatabase.utxoDiffChildStore.lookup 4 = some 5 from rfl) .refl
    have htwo : OnChain tieDatabase.utxoDiffChildStore.lookup 5 2 :=
      onChain_step (show tieDatabase.utxoDiffChildStore.lookup 2 = some 4 from rfl) hfour
    simp only [tieDatabase, table, List.foldr, lookup_set, lookup_empty] at hb
    split_ifs at hb with h₁ h₂ h₃ h₄ h₅
    · exact h₁ ▸ onChain_step (show tieDatabase.utxoDiffChildStore.lookup 1 = some 2 from rfl) htwo
    · exact h₂ ▸ htwo
    · exact h₃ ▸ onChain_step (show tieDatabase.utxoDiffChildStore.lookup 3 = some 5 from rfl) .refl
    · exact h₄ ▸ hfour
    · exact h₅ ▸ .refl
    · cases hb
  diff b c hc := by
    obtain ⟨rfl, rfl⟩ | ⟨rfl, rfl⟩ | ⟨rfl, rfl⟩ | ⟨rfl, rfl⟩ := tie_child hc <;> exact ⟨.new, rfl, isDiff_new _⟩
  within b o e ho := by cases ho

theorem tie_climbable (hb : b = 1 ∨ b = 3) : Climbable tieManager tieDatabase.utxoDiffChildStore b where
  data x hx := by
    have hmem : x ∈ [1, 2, 3, 4, 5] := by
      obtain rfl | ⟨y, hy, -⟩ := Relation.ReflTransGen.cases_head hx
      · obtain rfl | rfl := hb <;> simp
      · obtain ⟨-, rfl⟩ | ⟨-, rfl⟩ | ⟨-, rfl⟩ | ⟨-, rfl⟩ := tie_child hy <;> simp
    have hall : ∀ y ∈ [1, 2, 3, 4, 5], (tieManager.stores.data.lookup y).isSome = true := by decide
    exact Option.isSome_iff_exists.mp (hall x hmem)
  work x c _ hc := by
    obtain ⟨rfl, rfl⟩ | ⟨rfl, rfl⟩ | ⟨rfl, rfl⟩ | ⟨rfl, rfl⟩ := tie_child hc <;> decide

/-- The climb asks for the diff child of the virtual selected parent. -/
theorem climb_fails_at_tie : DiffChildren (fun _ _ => False) tieDatabase (fun _ _ => none) 5 ∧
      Climbable tieManager tieDatabase.utxoDiffChildStore 3 ∧ Climbable tieManager tieDatabase.utxoDiffChildStore 1 ∧
      previousPruningPoint tieManager = .ok 1 ∧
      calculateDiffBetweenPreviousAndCurrentPruningPoints tieManager tieDatabase 3 = .error (.notFound 5) ∧
      calculateDiffUsingAcceptanceData tieManager tieDatabase 3 = .ok .new :=
  ⟨tie_diffChildren, tie_climbable (.inr rfl), tie_climbable (.inl rfl), rfl, by decide +kernel, rfl⟩

end Kaspad.Pruning
