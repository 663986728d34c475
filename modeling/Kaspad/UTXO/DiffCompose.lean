import Kaspad.UTXO.DiffSpec

/-! # Composition and difference of UTXO diffs

`withDiff` of the diff from `S` to `T` and the diff from `T` to `U` is the diff from `S` to `U`;
`diffFrom` of the diffs from `S` to `T` and from `S` to `U` is the diff from `T` to `U`. Both facts are
proved outpoint by outpoint from the algebra of patches; only the comparison of two emptiness tests in
`diffFrom` looks at all outpoints at once (`diffFrom_ok_iff`).
-/

namespace Kaspad
open Lib UTXOCollection MutableUTXODiff GoMap Patch List AList

/-! ## The loops, at one outpoint -/

section
variable {known : DomainOutpoint → UTXOEntry → Prop} (hk : DAAScoreDetermines known)
include hk

variable {c₁ c₂ : UTXOCollection} {o : DomainOutpoint}
    (h₁ : ∀ e, c₁.lookup o = some e → known o e) (h₂ : ∀ e, c₂.lookup o = some e → known o e)

include h₁ h₂

theorem lookup_addWhere_matching {acc : UTXOCollection} :
    (GoMap.addWhere (fun o e => c₂.containsWithDAAScore o e.blockDAAScore) c₁ acc).lookup o =
      if (c₁.lookup o).isSome && decide (c₂.lookup o = c₁.lookup o) then c₁.lookup o else acc.lookup o := by
  rw [lookup_addWhere]
  cases h : c₁.lookup o with
  | none => simp
  | some e => simp [containsWithDAAScore_eq hk h₂ (h₁ e h)]

theorem lookup_addWhere_other (acc : UTXOCollection) :
    (GoMap.addWhere (fun o e => !c₂.containsWithDAAScore o e.blockDAAScore) c₁ acc).lookup o =
      Patch.putUnless (c₁.lookup o) (c₂.lookup o) (acc.lookup o) := by
  rw [lookup_addWhere]
  unfold Patch.putUnless
  cases h : c₁.lookup o with
  | none => simp
  | some e => simp [containsWithDAAScore_eq hk h₂ (h₁ e h)]

theorem lookup_removeMatching {uc : UTXOCollection} : (uc.removeMultiple
      (GoMap.addWhere (fun o e => c₂.containsWithDAAScore o e.blockDAAScore) c₁ ∅)).lookup o =
      Patch.dropIf (c₁.lookup o) (c₂.lookup o) (uc.lookup o) := by
  unfold removeMultiple Patch.dropIf
  rw [lookup_eraseKeys, lookup_addWhere_matching hk h₁ h₂]
  cases h : c₁.lookup o with
  | none => simp
  | some e => by_cases h' : c₂.lookup o = some e <;> simp [h']

end

theorem checkIntersectionWithRule_eq_none_iff {c₁ c₂ : UTXOCollection}
    {rule : DomainOutpoint → UTXOEntry → UTXOEntry → Bool} : checkIntersectionWithRule c₁ c₂ rule = none ↔
      ∀ o e e', c₁.lookup o = some e → c₂.lookup o = some e' → rule o e e' = false := by
  unfold checkIntersectionWithRule
  rw [findKey_eq_none_iff]
  constructor
  · intro h o e e' he he'
    have h' := h o e he
    rwa [show c₂.get o = some e' from he'] at h'
  intro h o e he
  cases h' : c₂.get o with
  | none => rfl
  | some e' => exact h o e e' he h'

theorem checkIntersection_iff (c₁ c₂ : UTXOCollection) :
    checkIntersection c₁ c₂ = true ↔ ∃ o, (c₁.lookup o).isSome ∧ (c₂.lookup o).isSome := by
  unfold checkIntersection
  rw [any_eq_true]
  constructor
  · rintro ⟨e, he, hc⟩
    have h := (mem_entries_iff c₁ e).mp he
    exact ⟨e.1, by rw [h]; rfl, hc⟩
  rintro ⟨o, h₁, h₂⟩
  obtain ⟨e, he⟩ := Option.isSome_iff_exists.mp h₁
  exact ⟨⟨o, e⟩, (mem_entries_iff c₁ ⟨o, e⟩).mpr he, h₂⟩

namespace MutableUTXODiff.IsDiff
variable {known : DomainOutpoint → UTXOEntry → Prop} {S T : UTXOSet} {d : MutableUTXODiff}
  (h : d.IsDiff S T) (o : DomainOutpoint)

include h

theorem lookup_add : d.toAdd.lookup o = (Patch.diff (S o) (T o)).add := congrArg Patch.add (h o)

theorem lookup_remove : d.toRemove.lookup o = (Patch.diff (S o) (T o)).remove := congrArg Patch.remove (h o)

theorem known_add (hT : T.Within known) (o : DomainOutpoint) (e : UTXOEntry)
    (he : d.toAdd.lookup o = some e) : known o e := by
  rw [h.lookup_add o] at he
  exact hT o e (of_add he).1

theorem known_remove (hS : S.Within known) (o : DomainOutpoint) (e : UTXOEntry)
    (he : d.toRemove.lookup o = some e) : known o e := by
  rw [h.lookup_remove o] at he
  exact hS o e (of_remove he).1

end MutableUTXODiff.IsDiff

section
variable {known : DomainOutpoint → UTXOEntry → Prop} (hk : DAAScoreDetermines known)
  {S T U : UTXOSet} {d₁ d₂ : MutableUTXODiff}
include hk

/-! ## `withDiff` composes -/

section
variable (h₁ : d₁.IsDiff S T) (h₂ : d₂.IsDiff T U) (hS : S.Within known) (hT : T.Within known)
  (hU : U.Within known)
include h₁ h₂ hT

theorem withDiff_removedTwice : checkIntersectionWithRule d₂.toRemove d₁.toRemove
    (fun o e _ => !d₁.toAdd.containsWithDAAScore o e.blockDAAScore) = none := by
  rw [checkIntersectionWithRule_eq_none_iff]
  intro o e e' he he'
  rw [containsWithDAAScore_eq hk (h₁.known_add hT o) (h₂.known_remove hT o e he), h₁.lookup_add o]
  rw [h₂.lookup_remove o] at he
  rw [h₁.lookup_remove o] at he'
  rw [(of_remove he').2.2, (of_remove he).1]
  simp

theorem withDiff_addedTwice : checkIntersectionWithRule d₂.toAdd d₁.toAdd
    (fun o _ e' => !d₂.toRemove.containsWithDAAScore o e'.blockDAAScore) = none := by
  rw [checkIntersectionWithRule_eq_none_iff]
  intro o e e' he he'
  rw [containsWithDAAScore_eq hk (h₂.known_remove hT o) (h₁.known_add hT o e' he'), h₂.lookup_remove o]
  rw [h₂.lookup_add o] at he
  rw [h₁.lookup_add o] at he'
  rw [(of_add he).2.2, (of_add he').1]
  simp

include hS hU

theorem withDiff_isDiff : ∃ r, withDiff d₁ d₂ = .ok r ∧ r.IsDiff S U := by
  unfold withDiff withDiffInPlace
  rw [withDiff_removedTwice hk h₁ h₂ hT, withDiff_addedTwice hk h₁ h₂ hT]
  refine ⟨_, rfl, ?_⟩
  intro o
  have kA₁ := h₁.known_add hT o
  have kA₂ := h₂.known_add hU o
  have kR₂ := h₂.known_remove hT o
  -- The second loop compares with `toRemove` as the first loop has left it.
  have hrem := lookup_addWhere_other hk kR₂ kA₁ d₁.toRemove
  have kR : ∀ e, (GoMap.addWhere (fun o e => !d₁.toAdd.containsWithDAAScore o e.blockDAAScore)
      d₂.toRemove d₁.toRemove).lookup o = some e → known o e := by
    intro e he
    rw [hrem] at he
    unfold Patch.putUnless at he
    split at he
    · exact kR₂ e he
    · exact h₁.known_remove hS o e he
  have hcomp : Patch.diff (S o) (U o) = Patch.comp (d₁.patchAt o) (d₂.patchAt o) := by
    rw [h₁ o, h₂ o, comp_diff]
  rw [hcomp]
  unfold patchAt Patch.comp
  simp only [lookup_addWhere_other hk kA₂ kR, lookup_removeMatching hk kA₂ kR,
    lookup_removeMatching hk kR₂ kA₁, hrem]

end

end

/-! ## The rules of `diffFrom` at one outpoint -/

namespace MutableUTXODiff
variable (d₁ d₂ : MutableUTXODiff)

def AgreeAt (o : DomainOutpoint) : Prop := ∃ s, (d₁.patchAt o).Valid s ∧ (d₂.patchAt o).Valid s

def ClashAt (o : DomainOutpoint) : Prop := (d₁.patchAt o).Clash (d₂.patchAt o)

def ReplacesShared (toRemove : UTXOCollection) : Prop :=
  ∃ o, (d₁.toAdd.lookup o).isSome ∧ d₂.toAdd.lookup o = d₁.toAdd.lookup o ∧
    (toRemove.lookup o).isSome

variable {d₁ d₂}

theorem AgreeAt.not_clashAt {o : DomainOutpoint} (h : AgreeAt d₁ d₂ o) : ¬ ClashAt d₁ d₂ o := by
  obtain ⟨s, h₁, h₂⟩ := h
  exact not_clash_of_valid h₁ h₂

theorem acceptsAt_iff (hc₁ : d₁.Canonical) (hc₂ : d₂.Canonical) (o : DomainOutpoint) :
    (d₁.patchAt o).Accepts (d₂.patchAt o) ↔ AgreeAt d₁ d₂ o ∨ ClashAt d₁ d₂ o := by
  constructor
  · intro h
    exact h.valid_or_clash
  intro h
  cases h with
  | inl h =>
    obtain ⟨s, h₁, h₂⟩ := h
    exact accepts_of_valid (hc₁ o) (hc₂ o) h₁ h₂
  | inr h => exact accepts_of_clash (hc₁ o) (hc₂ o) h

theorem replacesShared_iff_of_no_clash (h : ∀ o, ¬ ClashAt d₁ d₂ o) :
    ReplacesShared d₁ d₂ d₁.toRemove ↔ ReplacesShared d₁ d₂ d₂.toRemove := by
  apply exists_congr
  intro o
  apply and_congr_right
  intro hadd
  apply and_congr_right
  intro hsame
  rw [← Bool.eq_iff_iff]
  by_contra hne
  exact h o ⟨hadd, hsame, hne⟩

end MutableUTXODiff

section
variable {known : DomainOutpoint → UTXOEntry → Prop} (hk : DAAScoreDetermines known) {d₁ d₂ : MutableUTXODiff}
  (hA₁ : ∀ o e, d₁.toAdd.lookup o = some e → known o e)
  (hR₁ : ∀ o e, d₁.toRemove.lookup o = some e → known o e)
  (hA₂ : ∀ o e, d₂.toAdd.lookup o = some e → known o e)
  (hR₂ : ∀ o e, d₂.toRemove.lookup o = some e → known o e)
include hk

theorem blockDAAScore_bne {o : DomainOutpoint} {e e' : UTXOEntry} (he : known o e)
    (he' : known o e') : (e.blockDAAScore != e'.blockDAAScore) = decide (e ≠ e') := by
  by_cases h : e = e'
  · simp [h]
  have hs : e.blockDAAScore ≠ e'.blockDAAScore := fun hs => h (hk o e e' he he' hs)
  simp [h, hs]

include hA₁ hR₁ hA₂ hR₂

/-- The three rules together say of each outpoint that the patches compose. -/
theorem rules_iff :
    (checkIntersectionWithRule d₁.toRemove d₂.toAdd (isNotAddedOutputRemovedWithDAAScore d₁ d₂) = none ∧
      checkIntersectionWithRule d₁.toAdd d₂.toRemove (isNotRemovedOutputAddedWithDAAScore d₁ d₂) = none ∧
      checkIntersectionWithRule d₁.toRemove d₂.toRemove (fun _ e e' => e.blockDAAScore != e'.blockDAAScore) = none) ↔
      ∀ o, (d₁.patchAt o).Accepts (d₂.patchAt o) := by
  have rule₁ : ∀ o e e', d₁.toRemove.lookup o = some e → d₂.toAdd.lookup o = some e' →
      (isNotAddedOutputRemovedWithDAAScore d₁ d₂ o e e' = false ↔
        e' ≠ e ∧ (d₁.toAdd.lookup o = some e' ∨ d₂.toRemove.lookup o = some e)) := by
    intro o e e' he he'
    unfold isNotAddedOutputRemovedWithDAAScore
    rw [blockDAAScore_bne hk (hA₂ o e' he') (hR₁ o e he),
      containsWithDAAScore_eq hk (hA₁ o) (hA₂ o e' he'),
      containsWithDAAScore_eq hk (hR₂ o) (hR₁ o e he)]
    simp only [Bool.not_eq_false', Bool.and_eq_true, Bool.or_eq_true, decide_eq_true_eq]
  have rule₂ : ∀ o e e', d₁.toAdd.lookup o = some e → d₂.toRemove.lookup o = some e' →
      (isNotRemovedOutputAddedWithDAAScore d₁ d₂ o e e' = false ↔
        e' ≠ e ∧ (d₁.toRemove.lookup o = some e' ∨ d₂.toAdd.lookup o = some e)) := by
    intro o e e' he he'
    unfold isNotRemovedOutputAddedWithDAAScore
    rw [blockDAAScore_bne hk (hR₂ o e' he') (hA₁ o e he),
      containsWithDAAScore_eq hk (hR₁ o) (hR₂ o e' he'),
      containsWithDAAScore_eq hk (hA₂ o) (hA₁ o e he)]
    simp only [Bool.not_eq_false', Bool.and_eq_true, Bool.or_eq_true, decide_eq_true_eq]
  have rule₃ : ∀ o e e', d₁.toRemove.lookup o = some e → d₂.toRemove.lookup o = some e' →
      ((e.blockDAAScore != e'.blockDAAScore) = false ↔ e = e') := by
    intro o e e' he he'
    rw [blockDAAScore_bne hk (hR₁ o e he) (hR₂ o e' he')]
    simp
  simp only [checkIntersectionWithRule_eq_none_iff]
  constructor
  · intro h o
    exact ⟨fun e e' he he' => (rule₁ o e e' he he').mp (h.1 o e e' he he'),
      fun e e' he he' => (rule₂ o e e' he he').mp (h.2.1 o e e' he he'),
      fun e e' he he' => (rule₃ o e e' he he').mp (h.2.2 o e e' he he')⟩
  intro h
  exact ⟨fun o e e' he he' => (rule₁ o e e' he he').mpr ((h o).removedAdded e e' he he'),
    fun o e e' he he' => (rule₂ o e e' he he').mpr ((h o).addedRemoved e e' he he'),
    fun o e e' he he' => (rule₃ o e e' he he').mpr ((h o).removedTwice e e' he he')⟩

omit hR₁ hR₂ in
theorem checkIntersection_shared_iff (c : UTXOCollection) :
    checkIntersection (subtractionWithRemainderHavingDAAScore d₁.toAdd d₂.toAdd ∅ ∅).2 c = true ↔
      ReplacesShared d₁ d₂ c := by
  rw [checkIntersection_iff]
  apply exists_congr
  intro o
  unfold subtractionWithRemainderHavingDAAScore
  rw [lookup_addWhere_matching hk (hA₁ o) (hA₂ o), lookup_empty]
  by_cases hs : d₂.toAdd.lookup o = d₁.toAdd.lookup o
  · cases ha : d₁.toAdd.lookup o <;> simp [hs, ha]
  · simp [hs]

theorem diffFrom_ok_iff : (∃ r, diffFrom d₁ d₂ = .ok r) ↔ (∀ o, (d₁.patchAt o).Accepts (d₂.patchAt o)) ∧
      (ReplacesShared d₁ d₂ d₁.toRemove ↔ ReplacesShared d₁ d₂ d₂.toRemove) := by
  have hbase := fun c => checkIntersection_shared_iff hk hA₁ hA₂ c
  rw [← rules_iff hk hA₁ hR₁ hA₂ hR₂, ← hbase, ← hbase, ← Bool.eq_iff_iff]
  unfold diffFrom
  split
  · next h => simp [h]
  next h₁ =>
  split
  · next h => simp [h]
  next h₂ =>
  split
  · next h => simp [h]
  next h₃ =>
  simp only [h₁, h₂, h₃, true_and, bne_iff_ne, ne_eq, ite_not]
  split <;> simp [*]

theorem patchAt_diffFrom {r : MutableUTXODiff} (h : diffFrom d₁ d₂ = .ok r) (o : DomainOutpoint) :
    r.patchAt o = Patch.sub (d₁.patchAt o) (d₂.patchAt o) := by
  unfold diffFrom at h
  iterate 3
    split at h
    · cases h
  dsimp only at h
  split_ifs at h
  cases h
  unfold patchAt Patch.sub subtractionHavingDAAScore
  simp only [subtractionWithRemainderHavingDAAScore, lookup_addWhere_other hk (hA₂ o) (hA₁ o),
    lookup_addWhere_other hk (hR₁ o) (hR₂ o), lookup_addWhere_other hk (hR₂ o) (hR₁ o),
    lookup_addWhere_other hk (hA₁ o) (hA₂ o), lookup_empty]

end

variable {S : UTXOSet}

theorem diffFrom_isDiff {known : DomainOutpoint → UTXOEntry → Prop} (hk : DAAScoreDetermines known)
    {T U : UTXOSet} {d₁ d₂ : MutableUTXODiff} (h₁ : d₁.IsDiff S T) (h₂ : d₂.IsDiff S U)
    (hS : S.Within known) (hT : T.Within known) (hU : U.Within known) :
    ∃ r, diffFrom d₁ d₂ = .ok r ∧ r.IsDiff T U := by
  have kA₁ := h₁.known_add hT
  have kR₁ := h₁.known_remove hS
  have kA₂ := h₂.known_add hU
  have kR₂ := h₂.known_remove hS
  have hagree : ∀ o, AgreeAt d₁ d₂ o := fun o =>
    ⟨S o, (validOn_iff d₁ S).mp h₁.valid_canonical.1 o, (validOn_iff d₂ S).mp h₂.valid_canonical.1 o⟩
  have haccepts : ∀ o, (d₁.patchAt o).Accepts (d₂.patchAt o) := fun o =>
    (acceptsAt_iff h₁.valid_canonical.2 h₂.valid_canonical.2 o).mpr (.inl (hagree o))
  obtain ⟨r, hr⟩ := (diffFrom_ok_iff hk kA₁ kR₁ kA₂ kR₂).mpr
    ⟨haccepts, replacesShared_iff_of_no_clash fun o => (hagree o).not_clashAt⟩
  refine ⟨r, hr, fun o => ?_⟩
  rw [patchAt_diffFrom hk kA₁ kR₁ kA₂ kR₂ hr o, h₁ o, h₂ o, sub_diff]

/-! ## The laws of the algebra -/

variable {ds : List MutableUTXODiff}

theorem within_occurs : S.Within (Occurs S ds) :=
  fun _ _ h => .inl h

theorem occurs_add {d : MutableUTXODiff} (hd : d ∈ ds) (o : DomainOutpoint) (e : UTXOEntry)
    (h : d.toAdd.get o = some e) : Occurs S ds o e :=
  .inr ⟨d, hd, .inl h⟩

/-! A set with one entry and the diff that replaces it by the same output accepted later. -/

def sampleOutpoint : DomainOutpoint := ⟨1, 0⟩

def sampleEntry (daaScore : ℕ) : UTXOEntry := ⟨500, ⟨[0x51], 0⟩, daaScore, false⟩

def sampleSet (daaScore : ℕ) : UTXOSet :=
  fun o => if o = sampleOutpoint then some (sampleEntry daaScore) else none

def sampleDiff (old new : ℕ) : MutableUTXODiff :=
  { toAdd := AList.singleton sampleOutpoint (sampleEntry new)
    toRemove := AList.singleton sampleOutpoint (sampleEntry old) }

theorem sample_lookup (e : UTXOEntry) (o : DomainOutpoint) :
    (AList.singleton sampleOutpoint e : UTXOCollection).lookup o = if o = sampleOutpoint then some e else none := by
  rw [← insert_empty, lookup_set, lookup_empty]

theorem sample_isDiff (old new : ℕ) (h : old ≠ new) :
    (sampleDiff old new).IsDiff (sampleSet old) (sampleSet new) := by
  intro o
  have hne : sampleEntry old ≠ sampleEntry new := fun he => h (congrArg UTXOEntry.blockDAAScore he)
  unfold patchAt sampleDiff sampleSet Patch.diff
  simp only [sample_lookup]
  by_cases ho : o = sampleOutpoint
  · simp [ho, hne]
  · simp [ho]

theorem sample_daaScoreDetermines (s a b c d : ℕ) :
    DAAScoreDetermines (Occurs (sampleSet s) [sampleDiff a b, sampleDiff c d]) := by
  have hform : ∀ o e, Occurs (sampleSet s) [sampleDiff a b, sampleDiff c d] o e →
      e = sampleEntry e.blockDAAScore := by
    intro o e h
    unfold Occurs sampleSet sampleDiff UTXOCollection.get at h
    by_cases ho : o = sampleOutpoint
    · simp only [mem_cons, not_mem_nil, or_false, exists_eq_or_imp, exists_eq_left,
        sample_lookup, ho, if_true, Option.some.injEq] at h
      rcases h with h | (h | h) | (h | h) <;> rw [← h] <;> rfl
    · simp [sample_lookup, ho] at h
  intro o e e' he he' hs
  rw [hform o e he, hform o e' he', hs]

/-- Applying `d₁` and then `d₂` is applying their composition; subtracting `d₁` gives `d₂` back. -/
theorem withDiff_composes (S : UTXOSet) (d₁ d₂ : MutableUTXODiff) (hdaa : DAAScoreDetermines (Occurs S [d₁, d₂]))
    (hv₁ : d₁.ValidOn S) (hc₁ : d₁.Canonical) (hv₂ : d₂.ValidOn (d₁.applyTo S)) (hc₂ : d₂.Canonical) :
    ∃ r, withDiff d₁ d₂ = .ok r ∧ r.ValidOn S ∧ r.Canonical ∧ r.applyTo S = d₂.applyTo (d₁.applyTo S) ∧
      ∃ d, diffFrom d₁ r = .ok d ∧ d.Same d₂ := by
  have hS : S.Within (Occurs S [d₁, d₂]) := within_occurs
  have hT := within_applyTo hS (occurs_add (d := d₁) (by simp))
  have hU := within_applyTo hT (occurs_add (d := d₂) (by simp))
  have h₁ := (isDiff_iff d₁ S).mp ⟨hv₁, hc₁⟩
  have h₂ := (isDiff_iff d₂ (d₁.applyTo S)).mp ⟨hv₂, hc₂⟩
  obtain ⟨r, hr, hrd⟩ := withDiff_isDiff hdaa h₁ h₂ hS hT hU
  obtain ⟨d, hd, hdd⟩ := diffFrom_isDiff hdaa h₁ hrd hS hT hU
  exact ⟨r, hr, hrd.valid_canonical.1, hrd.valid_canonical.2, hrd.applyTo_eq, d, hd, hdd.same h₂⟩

theorem withDiff_composes_sample :
    ∃ r, withDiff (sampleDiff 5 7) (sampleDiff 7 9) = .ok r ∧ r.ValidOn (sampleSet 5) ∧ r.Canonical ∧
      r.applyTo (sampleSet 5) = (sampleDiff 7 9).applyTo ((sampleDiff 5 7).applyTo (sampleSet 5)) ∧
      ∃ d, diffFrom (sampleDiff 5 7) r = .ok d ∧ d.Same (sampleDiff 7 9) := by
  have h₁ := sample_isDiff 5 7 (by decide)
  have h₂ := sample_isDiff 7 9 (by decide)
  exact withDiff_composes (sampleSet 5) (sampleDiff 5 7) (sampleDiff 7 9)
    (sample_daaScoreDetermines 5 5 7 7 9) h₁.valid_canonical.1 h₁.valid_canonical.2
    (h₁.applyTo_eq ▸ h₂.valid_canonical.1) h₂.valid_canonical.2

/-- The difference leads from the result of the first to that of the second; the opposite one is its reverse. -/
theorem diffFrom_subtracts (S : UTXOSet) (d₁ d₂ : MutableUTXODiff) (hdaa : DAAScoreDetermines (Occurs S [d₁, d₂]))
    (hv₁ : d₁.ValidOn S) (hc₁ : d₁.Canonical) (hv₂ : d₂.ValidOn S) (hc₂ : d₂.Canonical) :
    ∃ d, diffFrom d₁ d₂ = .ok d ∧ d.ValidOn (d₁.applyTo S) ∧ d.Canonical ∧ (∃ r, withDiff d₁ d = .ok r ∧ r.Same d₂) ∧
      ∃ d', diffFrom d₂ d₁ = .ok d' ∧ d'.Same d.reversed := by
  have hS : S.Within (Occurs S [d₁, d₂]) := within_occurs
  have hT := within_applyTo hS (occurs_add (d := d₁) (by simp))
  have hU := within_applyTo hS (occurs_add (d := d₂) (by simp))
  have h₁ := (isDiff_iff d₁ S).mp ⟨hv₁, hc₁⟩
  have h₂ := (isDiff_iff d₂ S).mp ⟨hv₂, hc₂⟩
  obtain ⟨d, hd, hdd⟩ := diffFrom_isDiff hdaa h₁ h₂ hS hT hU
  obtain ⟨r, hr, hrd⟩ := withDiff_isDiff hdaa h₁ hdd hS hT hU
  obtain ⟨d', hd', hdd'⟩ := diffFrom_isDiff hdaa h₂ h₁ hS hU hT
  exact ⟨d, hd, hdd.valid_canonical.1, hdd.valid_canonical.2, ⟨r, hr, hrd.same h₂⟩,
    d', hd', hdd'.same hdd.reversed⟩

theorem diffFrom_subtracts_sample : ∃ d, diffFrom (sampleDiff 5 7) (sampleDiff 5 9) = .ok d ∧
      d.ValidOn ((sampleDiff 5 7).applyTo (sampleSet 5)) ∧ d.Canonical ∧
      (∃ r, withDiff (sampleDiff 5 7) d = .ok r ∧ r.Same (sampleDiff 5 9)) ∧
      ∃ d', diffFrom (sampleDiff 5 9) (sampleDiff 5 7) = .ok d' ∧ d'.Same d.reversed := by
  have h₁ := sample_isDiff 5 7 (by decide)
  have h₂ := sample_isDiff 5 9 (by decide)
  exact diffFrom_subtracts (sampleSet 5) (sampleDiff 5 7) (sampleDiff 5 9)
    (sample_daaScoreDetermines 5 5 7 5 9) h₁.valid_canonical.1 h₁.valid_canonical.2
    h₂.valid_canonical.1 h₂.valid_canonical.2

/-! ## Which pairs of diffs `diffFrom` rejects

At one outpoint the three rules of `diffFrom` reject every pair of patches that no cell admits,
with one exception: both diffs add one entry and only one of them removes an entry before it. That
case is left to the comparison of two emptiness tests over all outpoints, where another outpoint
hides it.
-/

namespace MutableUTXODiff
variable {d₁ d₂ : MutableUTXODiff}

structure Masked (d₁ d₂ : MutableUTXODiff) : Prop where
  accepted : ∀ o, AgreeAt d₁ d₂ o ∨ ClashAt d₁ d₂ o
  clash : ∃ o, ClashAt d₁ d₂ o
  first : ReplacesShared d₁ d₂ d₁.toRemove
  second : ReplacesShared d₁ d₂ d₂.toRemove

theorem exists_validOn_iff : (∃ S, d₁.ValidOn S ∧ d₂.ValidOn S) ↔ ∀ o, AgreeAt d₁ d₂ o := by
  constructor
  · intro h o
    obtain ⟨S, h₁, h₂⟩ := h
    exact ⟨S o, (validOn_iff d₁ S).mp h₁ o, (validOn_iff d₂ S).mp h₂ o⟩
  intro h
  choose S h₁ h₂ using h
  exact ⟨S, (validOn_iff d₁ S).mpr h₁, (validOn_iff d₂ S).mpr h₂⟩

theorem ClashAt.replacesShared {o : DomainOutpoint} (h : ClashAt d₁ d₂ o) :
    ReplacesShared d₁ d₂ d₁.toRemove ∨ ReplacesShared d₁ d₂ d₂.toRemove := by
  have hne : (d₁.toRemove.lookup o).isSome ≠ (d₂.toRemove.lookup o).isSome := h.removed
  cases hr : (d₁.toRemove.lookup o).isSome with
  | true => exact .inl ⟨o, h.added, h.same, hr⟩
  | false =>
    rw [hr] at hne
    exact .inr ⟨o, h.added, h.same, Bool.eq_true_of_not_eq_false hne.symm⟩

theorem accepted_iff (hc₁ : d₁.Canonical) (hc₂ : d₂.Canonical) : ((∀ o, (d₁.patchAt o).Accepts (d₂.patchAt o)) ∧
      (ReplacesShared d₁ d₂ d₁.toRemove ↔ ReplacesShared d₁ d₂ d₂.toRemove)) ↔
      (∀ o, AgreeAt d₁ d₂ o) ∨ Masked d₁ d₂ := by
  simp only [acceptsAt_iff hc₁ hc₂]
  constructor
  · intro ⟨haccepted, hbase⟩
    by_cases hclash : ∃ o, ClashAt d₁ d₂ o
    · obtain ⟨o, ho⟩ := hclash
      have hfirst := ho.replacesShared.elim id hbase.mpr
      exact .inr ⟨haccepted, ⟨o, ho⟩, hfirst, hbase.mp hfirst⟩
    · exact .inl fun o => (haccepted o).resolve_right fun h => hclash ⟨o, h⟩
  · intro h
    cases h with
    | inl h => exact ⟨fun o => .inl (h o), replacesShared_iff_of_no_clash fun o => (h o).not_clashAt⟩
    | inr h => exact ⟨h.accepted, iff_of_true h.first h.second⟩

end MutableUTXODiff

theorem occurs_self {S : UTXOSet} {ds : List MutableUTXODiff} {d : MutableUTXODiff} (hd : d ∈ ds)
    (o : DomainOutpoint) (e : UTXOEntry) (h : d.toRemove.lookup o = some e) : Occurs S ds o e :=
  .inr ⟨d, hd, .inr h⟩

/-- For canonical diffs, `diffFrom` fails exactly on the pairs that no UTXO set admits, if and only
if the pair has no masked clash. -/
theorem diffFrom_accepts_iff (d₁ d₂ : MutableUTXODiff) (hdaa : DAAScoreDetermines (Occurs (fun _ => none) [d₁, d₂]))
    (hc₁ : d₁.Canonical) (hc₂ : d₂.Canonical) :
    ((∃ r, diffFrom d₁ d₂ = .ok r) ↔ ∃ S, d₁.ValidOn S ∧ d₂.ValidOn S) ↔ ¬ Masked d₁ d₂ := by
  rw [diffFrom_ok_iff hdaa (occurs_add (d := d₁) (by simp)) (occurs_self (d := d₁) (by simp))
    (occurs_add (d := d₂) (by simp)) (occurs_self (d := d₂) (by simp)),
    accepted_iff hc₁ hc₂, exists_validOn_iff]
  constructor
  · intro h hmasked
    obtain ⟨o, ho⟩ := hmasked.clash
    exact (h.mp (.inr hmasked) o).not_clashAt ho
  · intro h
    rw [or_iff_left h]

theorem diffFrom_accepts_iff_sample : ((∃ r, diffFrom (sampleDiff 5 7) (sampleDiff 5 9) = .ok r) ↔
      ∃ S, (sampleDiff 5 7).ValidOn S ∧ (sampleDiff 5 9).ValidOn S) ↔ ¬ Masked (sampleDiff 5 7) (sampleDiff 5 9) := by
  apply diffFrom_accepts_iff (sampleDiff 5 7) (sampleDiff 5 9)
  · intro o e e' he he'
    exact sample_daaScoreDetermines 5 5 7 5 9 o e e' (.inr (he.resolve_left (by simp)))
      (.inr (he'.resolve_left (by simp)))
  · exact (sample_isDiff 5 7 (by decide)).valid_canonical.2
  · exact (sample_isDiff 5 9 (by decide)).valid_canonical.2

/-! Both diffs replace an output by a later one at the first outpoint; at the second only the first
diff removes the old output. -/

def pairOfEntries (e : UTXOEntry) : UTXOCollection :=
  (AList.singleton sampleOutpoint e).insert ⟨2, 0⟩ e

def maskedFirst : MutableUTXODiff :=
  { toAdd := pairOfEntries (sampleEntry 7), toRemove := pairOfEntries (sampleEntry 5) }

def maskedSecond : MutableUTXODiff :=
  { toAdd := pairOfEntries (sampleEntry 7)
    toRemove := AList.singleton sampleOutpoint (sampleEntry 5) }

theorem eq_of_lookup_pairOfEntries {e e' : UTXOEntry} {o : DomainOutpoint}
    (h : (pairOfEntries e).lookup o = some e') : e' = e := by
  simp only [pairOfEntries, GoMap.lookup_set, sample_lookup] at h
  split_ifs at h <;> exact (Option.some.inj h).symm

theorem diffFrom_accepts_masked : DAAScoreDetermines (Occurs (fun _ => none) [maskedFirst, maskedSecond]) ∧
      maskedFirst.Canonical ∧ maskedSecond.Canonical ∧ (∃ r, diffFrom maskedFirst maskedSecond = .ok r) ∧
      ¬ ∃ S, maskedFirst.ValidOn S ∧ maskedSecond.ValidOn S := by
  have hsingle : ∀ o e, maskedSecond.toRemove.lookup o = some e → e = sampleEntry 5 := by
    intro o e h
    simp only [maskedSecond, sample_lookup] at h
    split_ifs at h
    exact (Option.some.inj h).symm
  have hoccurs : ∀ o e, Occurs (fun _ => none) [maskedFirst, maskedSecond] o e →
      e = sampleEntry 7 ∨ e = sampleEntry 5 := by
    intro o e h
    simp only [Occurs, List.mem_cons, List.not_mem_nil, or_false, exists_eq_or_imp, exists_eq_left,
      reduceCtorEq, false_or] at h
    obtain (h | h) | (h | h) := h
    · exact .inl (eq_of_lookup_pairOfEntries h)
    · exact .inr (eq_of_lookup_pairOfEntries h)
    · exact .inl (eq_of_lookup_pairOfEntries h)
    · exact .inr (hsingle o e h)
  have hne : sampleEntry 7 ≠ sampleEntry 5 := by decide
  refine ⟨?_, ?_, ?_, ⟨_, rfl⟩, ?_⟩
  · intro o e e' he he' hs
    obtain rfl | rfl := hoccurs o e he <;> obtain rfl | rfl := hoccurs o e' he'
    all_goals first | rfl | exact absurd hs (by decide)
  · intro o e he he'
    exact hne ((eq_of_lookup_pairOfEntries he).symm.trans (eq_of_lookup_pairOfEntries he'))
  · intro o e he he'
    exact hne ((eq_of_lookup_pairOfEntries he).symm.trans (hsingle o e he'))
  rw [exists_validOn_iff]
  intro h
  exact (h ⟨2, 0⟩).not_clashAt ⟨by decide, rfl, by decide⟩

end Kaspad
