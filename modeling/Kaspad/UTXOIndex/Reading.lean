import Kaspad.UTXOIndex.Run

/-! # Reading the UTXO index

`UTXOs` lists what a cursor over the bucket of a script public key meets. It lists the outputs of that
script alone unless the key of another output lies in the bucket.
-/

namespace Kaspad.UTXOIndex
open Lib List GoMap

variable {e : UTXOEntry}

theorem mem_cursorRecords {utxos : GoMap (List UInt8) UTXOEntry} {bucket : Bucket} {suffix : List UInt8} :
    (suffix, e) ∈ cursorRecords utxos bucket ↔ utxos.lookup (bucket.path ++ suffix) = some e := by
  unfold cursorRecords
  simp only [mem_map, mem_insertionSort, mem_filter, decide_eq_true_eq, Prod.mk.injEq]
  constructor
  · rintro ⟨⟨k, e'⟩, ⟨hmem, t, ht⟩, hsuffix, rfl⟩
    obtain rfl : bucket.path ++ t = k := ht
    rw [drop_left] at hsuffix
    rw [← hsuffix]
    exact (mem_entries_iff utxos _).mp hmem
  · intro h
    refine ⟨⟨bucket.path ++ suffix, e⟩, ⟨(mem_entries_iff utxos _).mpr h, prefix_append _ _⟩, ?_, rfl⟩
    exact drop_left

section
variable [OutpointCodec]

theorem foldlM_records {T : UTXOSet}
    {records : List (List UInt8 × UTXOEntry)} (pairs : UTXOOutpointEntryPairs)
    (hrecords : ∀ suffix e, (suffix, e) ∈ records → ∃ o, deserializeOutpoint suffix = some o ∧ T o = some e)
    (hpairs : ∀ o e, pairs.lookup o = some e → T o = some e) : ∃ pairs', records.foldlM (fun pairs record =>
      match deserializeOutpoint record.1 with
      | some outpoint => pure (pairs.insert outpoint record.2)
      | none => throw (.malformedOutpoint record.1)) pairs = Except.ok (ε := IndexError) pairs' ∧
      ∀ o e, pairs'.lookup o = some e ↔
        pairs.lookup o = some e ∨ ∃ suffix, (suffix, e) ∈ records ∧ deserializeOutpoint suffix = some o := by
  induction records generalizing pairs with
  | nil => exact ⟨pairs, rfl, fun o e => by simp⟩
  | cons record records ih =>
    obtain ⟨suffix, e₁⟩ := record
    obtain ⟨o₁, hdecode, hT⟩ := hrecords suffix e₁ (by simp)
    have hpairs₁ : ∀ o e, (pairs.insert o₁ e₁).lookup o = some e → T o = some e := by
      intro o e h
      rw [lookup_set] at h
      split_ifs at h with ho
      · rw [ho, hT, h]
      · exact hpairs o e h
    obtain ⟨pairs', hfold, hlookup⟩ := ih _ (fun suffix e h => hrecords suffix e (mem_cons_of_mem _ h)) hpairs₁
    refine ⟨pairs', ?_, fun o e => (hlookup o e).trans ?_⟩
    · rw [foldlM_cons]
      simp only [hdecode]
      exact hfold
    rw [lookup_set]
    by_cases ho : o = o₁
    · subst ho
      rw [if_pos rfl]
      constructor
      · rintro (h | ⟨suffix', hmem, hdecode'⟩)
        · exact .inr ⟨suffix, by rw [Option.some.inj h]; simp, hdecode⟩
        · exact .inr ⟨suffix', mem_cons_of_mem _ hmem, hdecode'⟩
      rintro (h | ⟨suffix', hmem, hdecode'⟩)
      · exact .inl (hT.symm.trans (hpairs o e h))
      obtain ⟨o', hdecode'', hT'⟩ := hrecords suffix' e hmem
      obtain rfl : o = o' := Option.some.inj (hdecode'.symm.trans hdecode'')
      exact .inl (hT.symm.trans hT')
    · rw [if_neg ho]
      refine or_congr_right (exists_congr fun suffix' => and_congr_left fun hdecode' => ?_)
      rw [mem_cons, or_iff_right]
      rintro heq
      cases heq
      exact ho (Option.some.inj (hdecode'.symm.trans hdecode))

variable {uis : UTXOIndexStore} {V : UTXOSet} {s : ScriptPublicKey}

/-- No entry with another script has its key in the bucket of `s`. -/
def Alone (V : UTXOSet) (s : ScriptPublicKey) : Prop :=
  ∀ o e, V o = some e → e.scriptPublicKey ≠ s → ¬ Collides s e.scriptPublicKey o

variable {suffix : List UInt8} {e : UTXOEntry}

theorem UTXOIndexStore.Indexes.mem_cursorRecords (h : uis.Indexes V) :
    (suffix, e) ∈ cursorRecords uis.utxos (bucketForScriptPublicKey s) ↔
      ∃ o, V o = some e ∧ (bucketForScriptPublicKey s).path ++ suffix = keyOf e.scriptPublicKey o :=
  UTXOIndex.mem_cursorRecords.trans (h.records _ e)

theorem cursor_alone_iff (h : uis.Indexes V) :
    (∀ record ∈ cursorRecords uis.utxos (bucketForScriptPublicKey s), record.2.scriptPublicKey = s) ↔ Alone V s := by
  constructor
  · intro hall o e hV hne hcollides
    obtain ⟨suffix, hsuffix⟩ := (covers_keyOf_iff s e.scriptPublicKey o).mpr hcollides
    exact hne (hall (suffix, e) (h.mem_cursorRecords.mpr ⟨o, hV, hsuffix⟩))
  rintro halone ⟨suffix, e⟩ hmem
  obtain ⟨o, hV, hsuffix⟩ := h.mem_cursorRecords.mp hmem
  by_contra hne
  exact halone o e hV hne ((covers_keyOf_iff s e.scriptPublicKey o).mp (hsuffix ▸ prefix_append _ _))

theorem utxosOf_of_alone (h : uis.Indexes V) (hV : Fits V) (halone : Alone V s) : ∃ pairs, utxosOf uis s = .ok pairs ∧
      ∀ o e, pairs.lookup o = some e ↔ V o = some e ∧ e.scriptPublicKey = s := by
  have hrecord : ∀ suffix e, (suffix, e) ∈ cursorRecords uis.utxos (bucketForScriptPublicKey s) →
      ∃ o, V o = some e ∧ e.scriptPublicKey = s ∧ suffix = serializeOutpoint o := by
    intro suffix e hmem
    have hscript := (cursor_alone_iff h).mpr halone (suffix, e) hmem
    obtain ⟨o, hVo, hsuffix⟩ := h.mem_cursorRecords.mp hmem
    refine ⟨o, hVo, hscript, ?_⟩
    rw [show e.scriptPublicKey = s from hscript] at hsuffix
    exact append_cancel_left hsuffix
  have hdecodes : ∀ suffix e, (suffix, e) ∈ cursorRecords uis.utxos (bucketForScriptPublicKey s) →
      ∃ o, deserializeOutpoint suffix = some o ∧ V o = some e := by
    intro suffix e hmem
    obtain ⟨o, hVo, -, rfl⟩ := hrecord suffix e hmem
    exact ⟨o, deserializeOutpoint_serializeOutpoint (hV o e hVo), hVo⟩
  obtain ⟨pairs, hfold, hlookup⟩ := foldlM_records ∅ hdecodes (fun o e hnone => by simp at hnone)
  obtain ⟨hadd, hremove, -⟩ := unstaged_of_supply h.supply
  have hunstaged : uis.isAnythingStaged = false := by
    unfold UTXOIndexStore.isAnythingStaged
    rw [hadd, hremove]
    rfl
  refine ⟨pairs, ?_, fun o e => (hlookup o e).trans ⟨?_, ?_⟩⟩
  · unfold utxosOf
    rw [hunstaged]
    exact hfold
  · rintro (hnone | ⟨suffix, hmem, hdecoded⟩)
    · simp at hnone
    obtain ⟨o', hVo, hscript, rfl⟩ := hrecord suffix e hmem
    obtain rfl : o' = o := Option.some.inj ((deserializeOutpoint_serializeOutpoint (hV o' e hVo)).symm.trans hdecoded)
    exact ⟨hVo, hscript⟩
  · rintro ⟨hVo, rfl⟩
    exact .inr ⟨serializeOutpoint o, h.mem_cursorRecords.mpr ⟨o, hVo, rfl⟩, deserializeOutpoint_serializeOutpoint (hV o e hVo)⟩

/-- When the cursor meets records of the script only, and what `UTXOs` then returns. -/
theorem utxosOf_alone (uis : UTXOIndexStore) (V : UTXOSet) (h : uis.Indexes V) (hV : Fits V) (s : ScriptPublicKey) :
    (∀ s' o, (bucketForScriptPublicKey s).Covers (keyOf s' o) ↔ Collides s s' o) ∧
    ((∀ record ∈ cursorRecords uis.utxos (bucketForScriptPublicKey s), record.2.scriptPublicKey = s) ↔ Alone V s) ∧
    (Alone V s → ∃ pairs, utxosOf uis s = .ok pairs ∧
      ∀ o e, pairs.lookup o = some e ↔ V o = some e ∧ e.scriptPublicKey = s) :=
  ⟨covers_keyOf_iff s, cursor_alone_iff h, utxosOf_of_alone h hV⟩

end

section
attribute [local instance] canonicalCodec

def sampleScripts : UTXOCollection := sampleVirtual.insert sampleSpender ⟨300, ⟨[0x52], 0⟩, 1, false⟩

theorem sampleScripts_get {o : DomainOutpoint} (h : sampleScripts.get o = some e) :
    o = sampleSpender ∧ e = ⟨300, ⟨[0x52], 0⟩, 1, false⟩ ∨ o = sampleOutpoint ∧ e = sampleEntry 1 := by
  unfold sampleScripts UTXOCollection.get at h
  rw [lookup_set] at h
  split_ifs at h with ho
  · exact .inl ⟨ho, (Option.some.inj h).symm⟩
  change sampleVirtual.get o = some e at h
  rw [sampleVirtual_get] at h
  split_ifs at h with ho'
  exact .inr ⟨ho', (Option.some.inj h).symm⟩

theorem utxosOf_sampleScripts : ∃ pairs,
    utxosOf (resetTo (sampleScripts.pairsBy fun _ => 0) sampleStore) ⟨[0x51], 0⟩ = .ok pairs ∧
      ∀ o e, pairs.lookup o = some e ↔ sampleScripts.get o = some e ∧ e.scriptPublicKey = ⟨[0x51], 0⟩ := by
  have hfits : Fits sampleScripts.get := by
    intro o e h
    rcases sampleScripts_get h with ⟨rfl, -⟩ | ⟨rfl, -⟩ <;> exact ⟨by decide, by decide⟩
  have hapart : KeysApart sampleScripts.get := by
    intro o e o' e' h h' heq
    rcases sampleScripts_get h with ⟨rfl, rfl⟩ | ⟨rfl, rfl⟩ <;>
      rcases sampleScripts_get h' with ⟨rfl, rfl⟩ | ⟨rfl, rfl⟩
    · rfl
    · exact absurd heq (by decide)
    · exact absurd heq (by decide)
    · rfl
  have halone : Alone sampleScripts.get ⟨[0x51], 0⟩ := by
    intro o e h hne
    rcases sampleScripts_get h with ⟨rfl, rfl⟩ | ⟨rfl, rfl⟩
    · exact not_collides_of_no_separator (by decide) (by decide) (by decide) (by decide) hne.symm _
    · exact absurd rfl hne
  have hindexes : (resetTo (sampleScripts.pairsBy fun _ => 0) sampleStore).Indexes sampleScripts.get :=
    resetTo_indexes (fun o e => mem_pairsBy) (nodup_keys_pairsBy _ _) rfl rfl hapart
  exact (utxosOf_alone _ _ hindexes hfits ⟨[0x51], 0⟩).2.2 halone

/-- An output of the script `51 2f` is listed under `51`, and one of `51 2f 00` makes the listing of
`51` fail. -/
theorem utxosOf_lists_other_script :
    ((utxosOf (resetTo [(sampleOutpoint, ⟨500, ⟨[0x51, 0x2f], 0⟩, 1, false⟩)] sampleStore)
      ⟨[0x51], 0⟩).toOption.map fun pairs => pairs.lookup sampleOutpoint) =
        some (some ⟨500, ⟨[0x51, 0x2f], 0⟩, 1, false⟩) ∧
    (utxosOf (resetTo [(sampleOutpoint, ⟨500, ⟨[0x51, 0x2f, 0x00], 0⟩, 1, false⟩)] sampleStore)
      ⟨[0x51], 0⟩).isOk = false := by
  constructor <;> decide +kernel

end

end Kaspad.UTXOIndex
