import Kaspad.HeadersSelectedChain.Store

/-! # Staging a change of the chain

The database lists the chain from genesis upward. `Stage` takes the upper part off this list and puts
other blocks in its place: with the shard on top, the maps list the changed chain.
-/

namespace Kaspad.HeadersSelectedChain
open Lib Traversal List GoMap

/-- The two buckets and the highest index hold the list. -/
structure Buckets.Lists (db : Buckets) (l : List DomainHash) : Prop where
  byHash : ∀ hash index, db.indexByHash.lookup hash = some index ↔ l[index]? = some hash
  byIndex : ∀ index, db.hashByIndex.lookup index = l[index]?
  highest : db.highestChainBlockIndex = if l = [] then none else some (l.length - 1)

variable (v : Victims) {s : ChainStore} {l : List DomainHash}

theorem stageRemoved_spec {removed : List DomainHash} (hnodup : removed.Nodup) (shard : StagingShard)
    (hs : s.Coherent) (hl : s.db.Lists l) (hmem : ∀ h ∈ removed, h ∈ l)
    (hadded : ∀ h ∈ removed, shard.addedByHash.lookup h = none)
    (hfresh : ∀ h ∈ removed, shard.removedByHash.lookup h = none) :
    ∃ shard' s', stageRemoved v removed shard s = (.ok shard', s') ∧ s'.Coherent ∧ s'.db = s.db ∧
      shard'.addedByHash = shard.addedByHash ∧ shard'.addedByIndex = shard.addedByIndex ∧
      (∀ h, (shard'.removedByHash.lookup h).isSome ↔ (shard.removedByHash.lookup h).isSome ∨ h ∈ removed) ∧
      (∀ i, (shard'.removedByIndex.lookup i).isSome ↔
        (shard.removedByIndex.lookup i).isSome ∨ ∃ h ∈ removed, l[i]? = some h) := by
  induction removed generalizing shard s with
  | nil => exact ⟨shard, s, rfl, hs, rfl, rfl, rfl, by simp, by simp⟩
  | cons hash removed ih =>
    obtain ⟨hnew, hnodup'⟩ := nodup_cons.mp hnodup
    obtain ⟨i, hi⟩ := List.getElem?_of_mem (hmem hash (by simp))
    have hthrough : indexThrough shard s.db hash = some i := by
      unfold indexThrough
      rw [hadded hash (by simp), hfresh hash (by simp)]
      exact (hl.byHash hash i).mpr hi
    obtain ⟨hread, hs₁, hdb₁⟩ := getIndexByHash_spec v hs shard hash
    rw [hthrough] at hread
    have hpair : getIndexByHash v shard s hash = (.ok i, (getIndexByHash v shard s hash).2) :=
      Prod.ext hread rfl
    obtain ⟨shard', s', hstage, hs', hdb', hah, hai, hrh, hri⟩ := ih hnodup' { shard with
        removedByIndex := shard.removedByIndex.insert i ()
        removedByHash := shard.removedByHash.insert hash () } hs₁ (hdb₁ ▸ hl)
      (fun h hh => hmem h (by simp [hh])) (fun h hh => hadded h (by simp [hh])) (fun h hh => by
        have hne : h ≠ hash := fun heq => hnew (heq ▸ hh)
        simpa [hne] using hfresh h (by simp [hh]))
    refine ⟨shard', s', ?_, hs', hdb'.trans hdb₁, hah, hai, fun h => ?_, fun j => ?_⟩
    · unfold stageRemoved
      rw [hpair]
      exact hstage
    · rw [hrh, lookup_set]
      by_cases hh : h = hash <;> simp [hh]
    have hsame : l[j]? = some hash ↔ j = i := by
      rw [← hl.byHash, (hl.byHash hash i).mpr hi]
      simp [eq_comm]
    rw [hri, lookup_set]
    simp only [mem_cons, exists_eq_or_imp, hsame]
    by_cases hj : j = i <;> simp [hj]

theorem stageAdded_spec {added : List DomainHash} (hnodup : added.Nodup) (start : ℕ) (shard : StagingShard)
    (hinverse : shard.Inverse) (hhash : ∀ h ∈ added, shard.addedByHash.lookup h = none)
    (hindex : ∀ i, start ≤ i → shard.addedByIndex.lookup i = none) : (stageAdded added start shard).Inverse ∧
      (stageAdded added start shard).removedByHash = shard.removedByHash ∧
      (stageAdded added start shard).removedByIndex = shard.removedByIndex ∧
      ∀ i, (stageAdded added start shard).addedByIndex.lookup i =
        if i < start then shard.addedByIndex.lookup i else added[i - start]? := by
  induction added generalizing start shard with
  | nil =>
    refine ⟨hinverse, rfl, rfl, fun i => ?_⟩
    split_ifs with hi
    · rfl
    rw [List.getElem?_nil]
    exact hindex i (by omega)
  | cons hash added ih =>
    obtain ⟨hnew, hnodup'⟩ := nodup_cons.mp hnodup
    have hfree := hhash hash (by simp)
    have hfree' := hindex start le_rfl
    obtain ⟨hinv, hrh, hri, hai⟩ := ih hnodup' (start + 1) { shard with
        addedByIndex := shard.addedByIndex.insert start hash
        addedByHash := shard.addedByHash.insert hash start }
      (fun h i => by
        have hold := hinverse h i
        simp only [lookup_set]
        by_cases hh : h = hash
        · subst hh
          by_cases hi : i = start
          · simp [hi]
          simp only [if_true, Option.some.injEq, hi, if_false, ← hold, hfree]
          simp [Ne.symm hi]
        by_cases hi : i = start
        · subst hi
          simp only [hh, if_false, if_true, Option.some.injEq, hold, hfree']
          simp [Ne.symm hh]
        · simpa [hh, hi] using hold)
      (fun h hh => by
        have hne : h ≠ hash := fun heq => hnew (heq ▸ hh)
        simpa [hne] using hhash h (by simp [hh]))
      (fun i hi => by
        have hne : i ≠ start := by omega
        simpa [hne] using hindex i (by omega))
    refine ⟨hinv, hrh, hri, fun i => ?_⟩
    rw [stageAdded, hai]
    rcases lt_trichotomy i start with hi | rfl | hi
    · rw [if_pos (by omega), if_pos hi, lookup_set, if_neg (by omega)]
    · rw [if_pos (by omega), if_neg (by omega), lookup_set]
      simp
    rw [if_neg (by omega), if_neg (by omega)]
    have hsub : i - start = (i - (start + 1)) + 1 := by omega
    rw [hsub, List.getElem?_cons_succ]

theorem highestAdded_eq {entries : List ((_ : DomainHash) × ℕ)} {top : ℕ}
    (hle : ∀ e ∈ entries, e.2 ≤ top) (hmem : ∃ e ∈ entries, e.2 = top) : highestAdded entries = top := by
  have hgen : ∀ (entries : List ((_ : DomainHash) × ℕ)) (start : ℕ), (∀ e ∈ entries, e.2 ≤ top) →
      start ≤ top → (start = top ∨ ∃ e ∈ entries, e.2 = top) →
      entries.foldl (fun highestIndex e => if e.2 > highestIndex then e.2 else highestIndex) start = top := by
    intro entries
    induction entries with
    | nil => intro start _ _ htop; simpa using htop
    | cons e entries ih =>
      intro start hle hstart htop
      have he := hle e (by simp)
      rw [foldl_cons]
      refine ih _ (fun e' he' => hle e' (by simp [he'])) (by split_ifs <;> omega) ?_
      rcases htop with htop | ⟨e', he', htop⟩
      · left
        split_ifs <;> omega
      rcases mem_cons.mp he' with rfl | he'
      · left
        split_ifs <;> omega
      · exact .inr ⟨e', he', htop⟩
  exact hgen entries 0 hle (Nat.zero_le _) (.inr hmem)

/-- The shard takes `removed` off the list `kept ++ removed.reverse` and puts `added` there. -/
structure StagingShard.Changes (shard : StagingShard) (kept removed added : List DomainHash) : Prop where
  inverse : shard.Inverse
  byIndex : ∀ i, shard.addedByIndex.lookup i = if i < kept.length then none else added[i - kept.length]?
  removedHash : ∀ h, (shard.removedByHash.lookup h).isSome = true ↔ h ∈ removed
  removedIndex : ∀ i, (shard.removedByIndex.lookup i).isSome = true ↔
    ∃ h ∈ removed, (kept ++ removed.reverse)[i]? = some h

section
variable {shard : StagingShard} {db : Buckets} {kept removed added : List DomainHash}
  (hchange : shard.Changes kept removed added) (hl : db.Lists (kept ++ removed.reverse))
  (hnodup : (kept ++ removed.reverse).Nodup)

include hchange hl hnodup

theorem StagingShard.Changes.hashThrough_eq (i : ℕ) : hashThrough shard db i = (kept ++ added)[i]? := by
  have hapart := (nodup_append.mp hnodup).2.2
  unfold hashThrough
  rw [hchange.byIndex]
  by_cases hi : i < kept.length
  · have hnot : ¬ ∃ h ∈ removed, (kept ++ removed.reverse)[i]? = some h := by
      rintro ⟨h, hh, heq⟩
      rw [List.getElem?_append_left hi] at heq
      exact hapart h (mem_of_getElem? heq) h (by simpa using hh) rfl
    rw [if_pos hi]
    rw [if_neg ((hchange.removedIndex i).not.mpr hnot), hl.byIndex, List.getElem?_append_left hi,
      List.getElem?_append_left hi]
  rw [if_neg hi, List.getElem?_append_right (by omega : kept.length ≤ i)]
  cases hin : added[i - kept.length]? with
  | some h => rfl
  | none =>
    split_ifs with hrem
    · rfl
    rw [hl.byIndex]
    cases hold : (kept ++ removed.reverse)[i]? with
    | none => rfl
    | some h =>
      refine absurd ((hchange.removedIndex i).mpr ⟨h, ?_, hold⟩) hrem
      rw [List.getElem?_append_right (by omega : kept.length ≤ i)] at hold
      simpa using mem_of_getElem? hold

theorem StagingShard.Changes.indexThrough_iff (hnodup' : (kept ++ added).Nodup) (h : DomainHash) (i : ℕ) :
    indexThrough shard db h = some i ↔ (kept ++ added)[i]? = some h := by
  have hapart := (nodup_append.mp hnodup).2.2
  -- A block that is not added has its place, if any, in the part that is kept.
  have hkept : ∀ l : List DomainHash, h ∉ l → ((kept ++ l)[i]? = some h ↔ i < kept.length ∧ kept[i]? = some h) := by
    intro l hnot
    by_cases hi : i < kept.length
    · rw [List.getElem?_append_left hi]
      simp [hi]
    rw [List.getElem?_append_right (by omega : kept.length ≤ i)]
    simp only [hi, false_and, iff_false]
    exact fun heq => hnot (mem_of_getElem? heq)
  unfold indexThrough
  cases hin : shard.addedByHash.lookup h with
  | some j =>
    have hj : (kept ++ added)[j]? = some h := by
      rw [← hchange.hashThrough_eq hl hnodup]
      unfold hashThrough
      rw [(hchange.inverse h j).mp hin]
    simp only [Option.some.injEq]
    refine ⟨fun heq => heq ▸ hj, fun hi => ?_⟩
    exact (List.getElem?_inj (List.getElem?_eq_some_iff.mp hj).1 hnodup').mp (hj.trans hi.symm)
  | none =>
    have hnot : h ∉ added := by
      intro hh
      obtain ⟨j, hj⟩ := List.getElem?_of_mem hh
      have hlookup := hchange.byIndex (kept.length + j)
      rw [if_neg (by omega), Nat.add_sub_cancel_left, hj, ← hchange.inverse, hin] at hlookup
      cases hlookup
    rw [hkept added hnot]
    split_ifs with hrem
    · simp only [false_iff, not_and]
      exact fun _ heq => hapart h (mem_of_getElem? heq) h (by simpa using (hchange.removedHash h).mp hrem) rfl
    rw [hl.byHash, hkept]
    exact fun hh => hrem ((hchange.removedHash h).mpr (by simpa using hh))

omit hl hnodup in
theorem StagingShard.Changes.highest (hadded : added ≠ []) :
    shard.isStaged = true ∧ highestAdded shard.addedByHash.entries = (kept ++ added).length - 1 := by
  have hlength := length_pos_of_ne_nil hadded
  have hentries : ∀ e : (_ : DomainHash) × ℕ, e ∈ shard.addedByHash.entries ↔
      shard.addedByIndex.lookup e.2 = some e.1 := fun e =>
    (mem_entries_iff _ e).trans (hchange.inverse e.1 e.2)
  have htop : ⟨added.getLast hadded, (kept ++ added).length - 1⟩ ∈ shard.addedByHash.entries := by
    rw [hentries, hchange.byIndex]
    simp only [length_append]
    rw [if_neg (by omega), show kept.length + added.length - 1 - kept.length = added.length - 1 by omega,
      ← List.getLast?_eq_getElem?, List.getLast?_eq_getLast_of_ne_nil hadded]
  have hsize : shard.addedByHash.size ≠ 0 := by
    have hpos := length_pos_of_mem htop
    unfold GoMap.size
    omega
  refine ⟨by simp [StagingShard.isStaged, hsize], highestAdded_eq (fun e he => ?_) ⟨_, htop, rfl⟩⟩
  have hlookup := (hentries e).mp he
  rw [hchange.byIndex] at hlookup
  split_ifs at hlookup with hi
  have hlt := (List.getElem?_eq_some_iff.mp hlookup).1
  simp only [length_append]
  omega

end

theorem stage_spec {kept removed added : List DomainHash} (hs : s.Coherent)
    (hl : s.db.Lists (kept ++ removed.reverse)) (hnodup : (kept ++ removed.reverse).Nodup)
    (hnodup' : added.Nodup) :
    ∃ shard s', stage v .empty s ⟨added, removed⟩ = (.ok shard, s') ∧ s'.Coherent ∧ s'.db = s.db ∧
      shard.Changes kept removed added := by
  have hremovedNodup := nodup_reverse.mp (nodup_append.mp hnodup).2.1
  obtain ⟨shard₁, s₁, hremove, hs₁, hdb₁, hah, hai, hrh, hri⟩ := stageRemoved_spec v hremovedNodup .empty
    hs hl (fun h hh => by simp [hh]) (by simp [StagingShard.empty]) (by simp [StagingShard.empty])
  obtain ⟨hhighest, hs₂, hdb₂⟩ := highestChainBlockIndex_spec hs₁
  rw [hdb₁, hl.highest] at hhighest
  have hempty : shard₁.Inverse := by
    intro h i
    rw [hah, hai]
    simp [StagingShard.empty]
  obtain ⟨hinverse, hrh', hri', hai'⟩ := stageAdded_spec hnodup' kept.length shard₁ hempty
    (by simp [hah, StagingShard.empty]) (by simp [hai, StagingShard.empty])
  refine ⟨stageAdded added kept.length shard₁, (highestChainBlockIndex s₁).2, ?_, hs₂, hdb₂.trans hdb₁,
    hinverse, fun i => ?_, fun h => ?_, fun i => ?_⟩
  · have hstaged : StagingShard.empty.isStaged = false := rfl
    unfold stage
    rw [if_neg (by simp [hstaged])]
    simp only [hremove, hhighest]
    by_cases hnil : kept ++ removed.reverse = []
    · rw [if_pos hnil, (append_eq_nil_iff.mp hnil).1]
      rfl
    have hpos := length_pos_of_ne_nil hnil
    rw [if_neg hnil]
    simp only [length_append, length_reverse] at hpos ⊢
    rw [Nat.sub_add_cancel hpos, Nat.add_sub_cancel]
  · rw [hai', hai]
    rfl
  · rw [hrh', hrh]
    simp [StagingShard.empty]
  · rw [hri', hri]
    simp [StagingShard.empty]

end Kaspad.HeadersSelectedChain
