import Kaspad.Lib.Meets
import Kaspad.Lib.Total
import Kaspad.UTXO.DiffSpec
import Kaspad.UTXOIndex.Store

/-! # The UTXO index follows the virtual UTXO set

An update stages the removals of a diff and then its additions; an addition that meets a staged removal
of the same outpoint and script takes it back. So the index follows the virtual UTXO set as long as no
diff removes an outpoint and adds it again with another entry.
-/

namespace Kaspad.UTXOIndex
open Lib List GoMap Function

/-! ## What the index should hold -/

noncomputable def totalAmount (V : UTXOSet) : ℕ := total (fun _ e => e.amount) V

section
variable [OutpointCodec]

/-- The records are those of `V`, each one under the script and the outpoint of its entry, and the
supply is the sum of the amounts. -/
structure UTXOIndexStore.Indexes (uis : UTXOIndexStore) (V : UTXOSet) : Prop where
  records : ∀ k e, uis.utxos.lookup k = some e ↔ ∃ o, V o = some e ∧ k = keyOf e.scriptPublicKey o
  supply : getCirculatingSompiSupply uis = .ok (totalAmount V % 2 ^ 64)

def KeysApart (V : UTXOSet) : Prop :=
  ∀ o e o' e', V o = some e → V o' = some e' → keyOf e.scriptPublicKey o = keyOf e'.scriptPublicKey o' → o = o'

def Fits (V : UTXOSet) : Prop := ∀ o e, V o = some e → OutpointFits o

def Recreates (d : MutableUTXODiff) : Prop :=
  ∃ o e e', d.toRemove.lookup o = some e ∧ d.toAdd.lookup o = some e' ∧
    scriptPublicKeyString e.scriptPublicKey = scriptPublicKeyString e'.scriptPublicKey ∧ e ≠ e'

/-- Every entry of `V` is under its own key. -/
def UTXOIndexStore.Has (uis : UTXOIndexStore) (V : UTXOSet) : Prop :=
  ∀ o e, V o = some e → uis.utxos.lookup (keyOf e.scriptPublicKey o) = some e

theorem UTXOIndexStore.Indexes.has {uis : UTXOIndexStore} {V : UTXOSet} (h : uis.Indexes V) : uis.Has V :=
  fun o e ho => (h.records _ e).mpr ⟨o, ho, rfl⟩

theorem UTXOIndexStore.Has.keysApart {uis : UTXOIndexStore} {V : UTXOSet} (h : uis.Has V) (hV : Fits V) :
    KeysApart V := by
  intro o e o' e' ho ho' heq
  obtain rfl : e = e' := by
    have he := h o e ho
    rw [heq, h o' e' ho'] at he
    exact (Option.some.inj he).symm
  exact serializeOutpoint_injective (hV o e ho) (hV o' e ho') (append_cancel_left heq)

theorem keyOf_newScriptPublicKeyFromString (s : ScriptPublicKey) (o : DomainOutpoint) :
    keyOf (newScriptPublicKeyFromString (scriptPublicKeyString s)) o = keyOf s o := by
  have hbytes : scriptPublicKeyString (newScriptPublicKeyFromString (scriptPublicKeyString s)) =
      scriptPublicKeyString s := by
    have hlength : ((scriptPublicKeyString s).take 2).length = 2 := by simp [scriptPublicKeyString]
    have hencode := LittleEndian.encode_decode ((scriptPublicKeyString s).take 2)
    rw [hlength] at hencode
    exact (congrArg (· ++ (scriptPublicKeyString s).drop 2) hencode).trans (take_append_drop 2 _)
  unfold keyOf convertOutpointToKey Bucket.key
  rw [path_eq, path_eq, hbytes]

end

/-! ## Staging -/

def stagedEntry (staged : StagedPairs) (key : List UInt8) (o : DomainOutpoint) : Option UTXOEntry :=
  ((staged.lookup key).getD ∅).lookup o

def Groups (staged : StagedPairs) (S : UTXOSet) : Prop :=
  ∀ key o e, stagedEntry staged key o = some e ↔ S o = some e ∧ scriptPublicKeyString e.scriptPublicKey = key

theorem groups_empty : Groups ∅ fun _ => none := by
  intro key o e
  simp [stagedEntry]

theorem stagedEntry_insert (staged : StagedPairs) (key key' : List UInt8) (pairs : UTXOOutpointEntryPairs)
    (o : DomainOutpoint) : stagedEntry (staged.insert key pairs) key' o =
      if key' = key then pairs.lookup o else stagedEntry staged key' o := by
  unfold stagedEntry
  rw [lookup_set]
  split_ifs <;> rfl

variable {cancel into : StagedPairs} {C I : UTXOSet} {o : DomainOutpoint} {e : UTXOEntry} (err : IndexError)

theorem Groups.clear (h : Groups cancel C) {e' : UTXOEntry} (he : C o = some e') {key : List UInt8}
    (hkey : scriptPublicKeyString e'.scriptPublicKey = key) :
    Groups (cancel.insert key (((cancel.lookup key).getD ∅).erase o)) (Function.update C o none) := by
  intro key' o' e''
  rw [stagedEntry_insert, lookup_delete]
  have hrest := h key' o' e''
  by_cases ho : o' = o
  · subst ho
    rw [update_self, if_pos rfl]
    by_cases hk : key' = key
    · simp [hk]
    rw [if_neg hk, hrest, he]
    simp only [Option.some.injEq, reduceCtorEq, false_and, iff_false]
    rintro ⟨rfl, rfl⟩
    exact hk hkey
  · rw [update_of_ne ho, if_neg ho, ← hrest]
    by_cases hk : key' = key
    · rw [if_pos hk, hk]
      rfl
    · rw [if_neg hk]

theorem Groups.set (h : Groups into I) (he : I o = none) :
    Groups (into.insert (scriptPublicKeyString e.scriptPublicKey)
      (((into.lookup (scriptPublicKeyString e.scriptPublicKey)).getD ∅).insert o e))
      (Function.update I o (some e)) := by
  intro key' o' e''
  rw [stagedEntry_insert, lookup_set]
  have hrest := h key' o' e''
  by_cases ho : o' = o
  · subst ho
    rw [update_self, if_pos rfl]
    by_cases hk : key' = scriptPublicKeyString e.scriptPublicKey
    · rw [if_pos hk]
      constructor
      · rintro ⟨rfl⟩
        exact ⟨rfl, hk.symm⟩
      · exact fun h => h.1
    · rw [if_neg hk, hrest, he]
      simp only [reduceCtorEq, false_and, Option.some.injEq, false_iff]
      rintro ⟨rfl, rfl⟩
      exact hk rfl
  · rw [update_of_ne ho, if_neg ho, ← hrest]
    by_cases hk : key' = scriptPublicKeyString e.scriptPublicKey
    · rw [if_pos hk, hk]
      rfl
    · rw [if_neg hk]

def Cancels (C : UTXOSet) (o : DomainOutpoint) (e : UTXOEntry) : Prop :=
  ∃ e', C o = some e' ∧ scriptPublicKeyString e'.scriptPublicKey = scriptPublicKeyString e.scriptPublicKey

theorem stagePair_cancels (hC : Groups cancel C) (h : Cancels C o e) :
    ∃ cancel', stagePair cancel into (scriptPublicKeyString e.scriptPublicKey) o e err = .ok (cancel', into) ∧
      Groups cancel' (Function.update C o none) := by
  obtain ⟨e', he', hkey⟩ := h
  have hsome : (((cancel.lookup (scriptPublicKeyString e.scriptPublicKey)).getD ∅).lookup o).isSome := by
    rw [show ((cancel.lookup _).getD ∅).lookup o = stagedEntry cancel _ o from rfl,
      (hC (scriptPublicKeyString e.scriptPublicKey) o e').mpr ⟨he', hkey⟩]
    rfl
  refine ⟨_, ?_, hC.clear he' hkey⟩
  unfold stagePair
  rw [if_pos hsome]
  rfl

theorem stagePair_stages (hC : Groups cancel C) (hI : Groups into I) (h : ¬ Cancels C o e) (hnew : I o = none) :
    ∃ into', stagePair cancel into (scriptPublicKeyString e.scriptPublicKey) o e err = .ok (cancel, into') ∧
      Groups into' (Function.update I o (some e)) := by
  have hnone : ¬ (((cancel.lookup (scriptPublicKeyString e.scriptPublicKey)).getD ∅).lookup o).isSome := by
    intro hsome
    obtain ⟨e', he'⟩ := Option.isSome_iff_exists.mp hsome
    exact h ⟨e', (hC _ o e').mp he'⟩
  have hfree : ¬ (((into.lookup (scriptPublicKeyString e.scriptPublicKey)).getD ∅).lookup o).isSome := by
    intro hsome
    obtain ⟨e', he'⟩ := Option.isSome_iff_exists.mp hsome
    have hI' := ((hI _ o e').mp he').1
    rw [hnew] at hI'
    cases hI'
  refine ⟨_, ?_, hI.set hnew⟩
  unfold stagePair
  rw [if_neg hnone, if_neg hfree]
  rfl

/-- What the loop over the pairs of a collection leaves of the removals `C` and the additions `I`. -/
structure Nets (l : List (DomainOutpoint × UTXOEntry)) (C I C' I' : UTXOSet) : Prop where
  cancelled : ∀ o e, (o, e) ∈ l → Cancels C o e → C' o = none ∧ I' o = I o
  staged : ∀ o e, (o, e) ∈ l → ¬ Cancels C o e → C' o = C o ∧ I' o = some e
  others : ∀ o, o ∉ l.map Prod.fst → C' o = C o ∧ I' o = I o

def stagePairs (err : DomainOutpoint → IndexError) (l : List (DomainOutpoint × UTXOEntry))
    (staged : StagedPairs × StagedPairs) : Except IndexError (StagedPairs × StagedPairs) :=
  l.foldlM (fun staged pair => stagePair staged.1 staged.2 (scriptPublicKeyString pair.2.scriptPublicKey) pair.1
    pair.2 (err pair.1)) staged

variable {l : List (DomainOutpoint × UTXOEntry)}

theorem Nets.cons {C I C₁ I₁ C' I' : UTXOSet} (hnew : o ∉ l.map Prod.fst)
    (hfirst : Nets [(o, e)] C I C₁ I₁) (hrest : Nets l C₁ I₁ C' I') : Nets ((o, e) :: l) C I C' I' := by
  have hlast := hrest.others o hnew
  have hother : ∀ {o' e'}, (o', e') ∈ l → C₁ o' = C o' ∧ I₁ o' = I o' := fun {o' e'} h =>
    hfirst.others o' fun hmem => hnew (by
      obtain rfl : o' = o := by simpa using hmem
      exact mem_map.mpr ⟨_, h, rfl⟩)
  have hcancels : ∀ {o' e'}, (o', e') ∈ l → (Cancels C₁ o' e' ↔ Cancels C o' e') := fun {o' e'} h => by
    unfold Cancels
    rw [(hother h).1]
  constructor
  · intro o' e' hmem hc
    rcases mem_cons.mp hmem with heq | hmem
    · obtain ⟨rfl, rfl⟩ := Prod.mk.inj heq
      rw [hlast.1, hlast.2]
      exact hfirst.cancelled o' e' (by simp) hc
    · rw [← (hother hmem).2]
      exact hrest.cancelled o' e' hmem ((hcancels hmem).mpr hc)
  · intro o' e' hmem hc
    rcases mem_cons.mp hmem with heq | hmem
    · obtain ⟨rfl, rfl⟩ := Prod.mk.inj heq
      rw [hlast.1, hlast.2]
      exact hfirst.staged o' e' (by simp) hc
    · rw [← (hother hmem).1]
      exact hrest.staged o' e' hmem fun h => hc ((hcancels hmem).mp h)
  · intro o' hmem
    obtain ⟨hne, hmem⟩ := not_or.mp fun h => hmem (mem_cons.mpr h)
    have h₁ := hfirst.others o' (by simpa using hne)
    have h₂ := hrest.others o' hmem
    exact ⟨h₂.1.trans h₁.1, h₂.2.trans h₁.2⟩

theorem stagePairs_ok (errOf : DomainOutpoint → IndexError) (hnodup : (l.map Prod.fst).Nodup)
    (hC : Groups cancel C) (hI : Groups into I) (hnew : ∀ o ∈ l.map Prod.fst, I o = none) :
    ∃ cancel' into' C' I', stagePairs errOf l (cancel, into) = .ok (cancel', into') ∧ Groups cancel' C' ∧
      Groups into' I' ∧ Nets l C I C' I' := by
  induction l generalizing cancel into C I with
  | nil => exact ⟨cancel, into, C, I, rfl, hC, hI, nofun, nofun, fun o _ => ⟨rfl, rfl⟩⟩
  | cons pair l ih =>
    obtain ⟨o, e⟩ := pair
    obtain ⟨hnotin, hnodup⟩ := nodup_cons.mp hnodup
    have hfree := hnew o (by simp)
    have hstep : ∃ cancel₁ into₁ C₁ I₁, stagePair cancel into (scriptPublicKeyString e.scriptPublicKey) o e
        (errOf o) = .ok (cancel₁, into₁) ∧ Groups cancel₁ C₁ ∧ Groups into₁ I₁ ∧ Nets [(o, e)] C I C₁ I₁ := by
      by_cases hc : Cancels C o e
      · obtain ⟨cancel₁, heq, hC₁⟩ := stagePair_cancels (errOf o) hC hc
        refine ⟨cancel₁, into, _, I, heq, hC₁, hI, fun o' e' h _ => ?_, fun o' e' h hc' => ?_, fun o' h => ?_⟩
        · cases mem_singleton.mp h
          exact ⟨update_self _ _ _, rfl⟩
        · cases mem_singleton.mp h
          exact absurd hc hc'
        · exact ⟨update_of_ne (by simpa using h) _ _, rfl⟩
      obtain ⟨into₁, heq, hI₁⟩ := stagePair_stages (errOf o) hC hI hc hfree
      refine ⟨cancel, into₁, C, _, heq, hC, hI₁, fun o' e' h hc' => ?_, fun o' e' h _ => ?_, fun o' h => ?_⟩
      · cases mem_singleton.mp h
        exact absurd hc' hc
      · cases mem_singleton.mp h
        exact ⟨rfl, update_self _ _ _⟩
      · exact ⟨rfl, update_of_ne (by simpa using h) _ _⟩
    obtain ⟨cancel₁, into₁, C₁, I₁, heq, hC₁, hI₁, hfirst⟩ := hstep
    have hnew₁ : ∀ o' ∈ l.map Prod.fst, I₁ o' = none := fun o' ho' => by
      have hne : o' ∉ [(o, e)].map Prod.fst := fun h => hnotin (by
        obtain rfl : o' = o := by simpa using h
        exact ho')
      rw [(hfirst.others o' hne).2]
      exact hnew o' (mem_cons_of_mem _ ho')
    obtain ⟨cancel', into', C', I', hrest, hC', hI', hnets⟩ := ih hnodup hC₁ hI₁ hnew₁
    refine ⟨cancel', into', C', I', ?_, hC', hI', hfirst.cons hnotin hnets⟩
    rw [stagePairs, foldlM_cons, heq]
    exact hrest

variable (orders : Orders)

theorem removeUTXOs_eq (toRemove : UTXOCollection) (uis : UTXOIndexStore) : removeUTXOs orders toRemove uis = (do
      let staged ← stagePairs .beingRemoved (toRemove.pairsBy orders.outpoints) (uis.toAdd, uis.toRemove)
      pure { uis with toAdd := staged.1, toRemove := staged.2 }) := by
  unfold removeUTXOs stagePairs
  generalize toRemove.pairsBy orders.outpoints = l
  induction l generalizing uis with
  | nil => rfl
  | cons pair l ih =>
    rw [foldlM_cons, foldlM_cons, UTXOIndexStore.remove]
    cases stagePair uis.toAdd uis.toRemove (scriptPublicKeyString pair.2.scriptPublicKey) pair.1 pair.2
      (.beingRemoved pair.1) with
    | error e => rfl
    | ok staged => exact ih _

theorem addUTXOs_eq (toAdd : UTXOCollection) (uis : UTXOIndexStore) : addUTXOs orders toAdd uis = (do
      let staged ← stagePairs .beingAdded (toAdd.pairsBy orders.outpoints) (uis.toRemove, uis.toAdd)
      pure { uis with toAdd := staged.2, toRemove := staged.1 }) := by
  unfold addUTXOs stagePairs
  generalize toAdd.pairsBy orders.outpoints = l
  induction l generalizing uis with
  | nil => rfl
  | cons pair l ih =>
    rw [foldlM_cons, foldlM_cons, UTXOIndexStore.add]
    cases stagePair uis.toRemove uis.toAdd (scriptPublicKeyString pair.2.scriptPublicKey) pair.1 pair.2
      (.beingAdded pair.1) with
    | error e => rfl
    | ok staged => exact ih _

structure NetOf (d : MutableUTXODiff) (R A : UTXOSet) : Prop where
  cancelled : ∀ o e, d.toAdd.lookup o = some e → Cancels (fun o => d.toRemove.lookup o) o e → R o = none ∧ A o = none
  added : ∀ o e, d.toAdd.lookup o = some e → ¬ Cancels (fun o => d.toRemove.lookup o) o e →
    R o = d.toRemove.lookup o ∧ A o = some e
  others : ∀ o, d.toAdd.lookup o = none → R o = d.toRemove.lookup o ∧ A o = none

theorem stages_diff (d : MutableUTXODiff) (uis : UTXOIndexStore) (hadd : uis.toAdd = ∅) (hremove : uis.toRemove = ∅) :
    ∃ toAdd toRemove R A, (do
      let uis ← removeUTXOs orders d.toRemove uis
      addUTXOs orders d.toAdd uis) = .ok { uis with toAdd := toAdd, toRemove := toRemove } ∧
      Groups toRemove R ∧ Groups toAdd A ∧ NetOf d R A := by
  have hmem : ∀ {c : UTXOCollection} {o}, o ∉ (c.pairsBy orders.outpoints).map Prod.fst ↔ c.lookup o = none := by
    intro c o
    rw [mem_map, Option.eq_none_iff_forall_ne_some]
    constructor
    · exact fun h e he => h ⟨(o, e), mem_pairsBy.mpr he, rfl⟩
    rintro h ⟨⟨o', e⟩, he, rfl⟩
    exact h e (mem_pairsBy.mp he)
  -- The removals: nothing is staged yet, so nothing cancels.
  obtain ⟨toAdd₁, toRemove₁, A₁, R₁, hstage₁, hA₁, hR₁, hnets₁⟩ := stagePairs_ok .beingRemoved
    (nodup_keys_pairsBy orders.outpoints d.toRemove) groups_empty groups_empty fun _ _ => rfl
  have hstaged : ∀ o, A₁ o = none ∧ R₁ o = d.toRemove.lookup o := by
    intro o
    cases ho : d.toRemove.lookup o with
    | none => exact hnets₁.others o (hmem.mpr ho)
    | some e => exact hnets₁.staged o e (mem_pairsBy.mpr ho) (by rintro ⟨e', he', -⟩; cases he')
  obtain rfl : A₁ = fun _ => none := funext fun o => (hstaged o).1
  obtain rfl : R₁ = fun o => d.toRemove.lookup o := funext fun o => (hstaged o).2
  obtain ⟨toRemove, toAdd, R, A, hstage, hR, hA, hnets⟩ := stagePairs_ok .beingAdded
    (nodup_keys_pairsBy orders.outpoints d.toAdd) hR₁ hA₁ fun _ _ => rfl
  refine ⟨toAdd, toRemove, R, A, ?_, hR, hA, ?_, ?_, ?_⟩
  · rw [removeUTXOs_eq, hadd, hremove, hstage₁, ok_bind, pure_bind, addUTXOs_eq]
    rw [hstage]
    rfl
  · exact fun o e he => hnets.cancelled o e (mem_pairsBy.mpr he)
  · exact fun o e he => hnets.staged o e (mem_pairsBy.mpr he)
  · exact fun o ho => hnets.others o (hmem.mpr ho)

/-! ## The commit -/

section
variable {staged : StagedPairs} {S : UTXOSet} {orders : Orders}

theorem mem_stagedRecords [OutpointCodec] (h : Groups staged S) {k : List UInt8} {o : DomainOutpoint} {e : UTXOEntry} :
    (k, o, e) ∈ stagedRecords orders staged ↔ S o = some e ∧ k = keyOf e.scriptPublicKey o := by
  unfold stagedRecords
  rw [mem_flatMap]
  constructor
  · rintro ⟨⟨key, pairs⟩, hpairs, hmem⟩
    obtain ⟨⟨o', e'⟩, hpair, heq⟩ := mem_map.mp hmem
    obtain ⟨rfl, rfl, rfl⟩ : _ = k ∧ o' = o ∧ e' = e := by simpa using heq
    have hentry : stagedEntry staged key o' = some e' := by
      rw [stagedEntry, mem_pairsBy.mp hpairs]
      exact mem_pairsBy.mp hpair
    obtain ⟨hS, rfl⟩ := (h key o' e').mp hentry
    exact ⟨hS, keyOf_newScriptPublicKeyFromString e'.scriptPublicKey o'⟩
  rintro ⟨hS, rfl⟩
  have hentry := (h _ o e).mpr ⟨hS, rfl⟩
  unfold stagedEntry at hentry
  cases hpairs : staged.lookup (scriptPublicKeyString e.scriptPublicKey) with
  | none =>
    rw [hpairs] at hentry
    simp at hentry
  | some pairs =>
    rw [hpairs, Option.getD_some] at hentry
    refine ⟨(scriptPublicKeyString e.scriptPublicKey, pairs), mem_pairsBy.mpr hpairs, ?_⟩
    refine mem_map.mpr ⟨(o, e), mem_pairsBy.mpr hentry, ?_⟩
    exact Prod.ext (keyOf_newScriptPublicKeyFromString e.scriptPublicKey o) rfl

def recordPairs (records : List (List UInt8 × DomainOutpoint × UTXOEntry)) : List (DomainOutpoint × UTXOEntry) :=
  records.map Prod.snd

theorem nodup_recordPairs [OutpointCodec] (h : Groups staged S) :
    ((recordPairs (stagedRecords orders staged)).map Prod.fst).Nodup := by
  have heq : (recordPairs (stagedRecords orders staged)).map Prod.fst =
      (staged.pairsBy orders.scripts).flatMap fun pairs => (pairs.2.pairsBy orders.outpoints).map Prod.fst := by
    unfold recordPairs stagedRecords
    rw [map_map, map_flatMap]
    congr 1
    funext pairs
    rw [map_map]
    rfl
  rw [heq, nodup_flatMap]
  refine ⟨fun pairs _ => nodup_keys_pairsBy _ _, ?_⟩
  have hkeys := pairwise_map.mp (nodup_keys_pairsBy orders.scripts staged)
  refine hkeys.imp_of_mem fun {a b} ha hb hne o hoa hob => hne ?_
  have hscript : ∀ {pairs : List UInt8 × UTXOOutpointEntryPairs}, pairs ∈ staged.pairsBy orders.scripts →
      o ∈ (pairs.2.pairsBy orders.outpoints).map Prod.fst →
        ∃ e, S o = some e ∧ scriptPublicKeyString e.scriptPublicKey = pairs.1 := by
    rintro ⟨key, pairs⟩ hpairs ho
    obtain ⟨⟨o', e⟩, hpair, rfl⟩ := mem_map.mp ho
    refine ⟨e, (h key o' e).mp ?_⟩
    rw [stagedEntry, mem_pairsBy.mp hpairs]
    exact mem_pairsBy.mp hpair
  obtain ⟨e, he, hkey⟩ := hscript ha hoa
  obtain ⟨e', he', hkey'⟩ := hscript hb hob
  obtain rfl : e = e' := Option.some.inj (he.symm.trans he')
  exact hkey.symm.trans hkey'

end

theorem sompiSupply_eq (entries : List UTXOEntry) : sompiSupply entries = (entries.map (·.amount)).sum % 2 ^ 64 := by
  have hgeneral : ∀ supply, entries.foldl (fun supply e => (supply + e.amount) % 2 ^ 64) (supply % 2 ^ 64) =
      (supply + (entries.map (·.amount)).sum) % 2 ^ 64 := by
    induction entries with
    | nil => intro supply; simp
    | cons e entries ih =>
      intro supply
      rw [foldl_cons, map_cons, sum_cons, Nat.mod_add_mod, ih, Nat.add_assoc]
  have h := hgeneral 0
  rwa [Nat.zero_mod, Nat.zero_add] at h

/-! ## One update -/

variable {d : MutableUTXODiff} {R A V : UTXOSet} {o : DomainOutpoint} {e : UTXOEntry}

theorem NetOf.remove (h : NetOf d R A) (hR : R o = some e) :
    d.toRemove.lookup o = some e := by
  cases ha : d.toAdd.lookup o with
  | none => rw [← (h.others o ha).1, hR]
  | some e' =>
    by_cases hc : Cancels (fun o => d.toRemove.lookup o) o e'
    · rw [(h.cancelled o e' ha hc).1] at hR
      cases hR
    · rw [← (h.added o e' ha hc).1, hR]

theorem NetOf.add (h : NetOf d R A) (hA : A o = some e) :
    d.toAdd.lookup o = some e ∧ ¬ Cancels (fun o => d.toRemove.lookup o) o e := by
  cases ha : d.toAdd.lookup o with
  | none =>
    rw [(h.others o ha).2] at hA
    cases hA
  | some e' =>
    by_cases hc : Cancels (fun o => d.toRemove.lookup o) o e'
    · rw [(h.cancelled o e' ha hc).2] at hA
      cases hA
    obtain rfl : e' = e := by
      rw [(h.added o e' ha hc).2] at hA
      exact Option.some.inj hA
    exact ⟨rfl, hc⟩

theorem NetOf.applyTo_of_none (h : NetOf d R A) (hv : d.ValidOn V) (hrecreates : ¬ Recreates d)
    (hA : A o = none) (hR : R o = none) : d.applyTo V o = V o := by
  unfold MutableUTXODiff.applyTo UTXOCollection.get UTXOCollection.contains
  cases ha : d.toAdd.lookup o with
  | none =>
    have hr := (h.others o ha).1 ▸ hR
    simp [hr]
  | some e =>
    by_cases hc : Cancels (fun o => d.toRemove.lookup o) o e
    · obtain ⟨e', he', hscript⟩ := hc
      have heq : e' = e := by
        by_contra hne
        exact hrecreates ⟨o, e', e, he', ha, hscript, hne⟩
      rw [hv.removed o e' he', heq]
    · rw [(h.added o e ha hc).2] at hA
      cases hA

theorem NetOf.applyTo_of_add (h : NetOf d R A) (hA : A o = some e) :
    d.applyTo V o = some e := by
  unfold MutableUTXODiff.applyTo UTXOCollection.get
  rw [(h.add hA).1]

theorem NetOf.applyTo_of_remove (h : NetOf d R A) (hA : A o = none)
    (hR : R o = some e) : d.applyTo V o = none := by
  have ha : d.toAdd.lookup o = none := by
    cases ha : d.toAdd.lookup o with
    | none => rfl
    | some e' =>
      by_cases hc : Cancels (fun o => d.toRemove.lookup o) o e'
      · rw [(h.cancelled o e' ha hc).1] at hR
        cases hR
      rw [(h.added o e' ha hc).2] at hA
      cases hA
  unfold MutableUTXODiff.applyTo UTXOCollection.get UTXOCollection.contains
  rw [ha, h.remove hR]
  rfl

variable {removed added : List (DomainOutpoint × UTXOEntry)}

theorem NetOf.applyTo_eq (h : NetOf d R A) (hv : d.ValidOn V) (hrecreates : ¬ Recreates d)
    (hremoved : ∀ o e, (o, e) ∈ removed ↔ R o = some e)
    (hadded : ∀ o e, (o, e) ∈ added ↔ A o = some e) (hnodup : (added.map Prod.fst).Nodup) :
    d.applyTo V = setAll (clearAll V (removed.map Prod.fst)) added := by
  funext o
  cases hA : A o with
  | some e => rw [h.applyTo_of_add hA, setAll_of_mem hnodup ((hadded o e).mpr hA)]
  | none =>
    have hnotadded : o ∉ added.map Prod.fst := by
      intro hmem
      obtain ⟨⟨o', e⟩, he, rfl⟩ := mem_map.mp hmem
      rw [(hadded o' e).mp he] at hA
      cases hA
    rw [setAll_of_notMem hnotadded, clearAll_apply]
    cases hR : R o with
    | some e =>
      rw [h.applyTo_of_remove hA hR, if_pos (mem_map.mpr ⟨(o, e), (hremoved o e).mpr hR, rfl⟩)]
    | none =>
      rw [h.applyTo_of_none hv hrecreates hA hR, if_neg]
      intro hmem
      obtain ⟨⟨o', e⟩, he, rfl⟩ := mem_map.mp hmem
      rw [(hremoved o' e).mp he] at hR
      cases hR

theorem NetOf.totalAmount_eq (h : NetOf d R A) (hv : d.ValidOn V) (hrecreates : ¬ Recreates d)
    (hfinite : FinitelyMany V) (hremoved : ∀ o e, (o, e) ∈ removed ↔ R o = some e)
    (hadded : ∀ o e, (o, e) ∈ added ↔ A o = some e) (hnodupR : (removed.map Prod.fst).Nodup)
    (hnodupA : (added.map Prod.fst).Nodup) : totalAmount (d.applyTo V) + (removed.map fun pair => pair.2.amount).sum =
      totalAmount V + (added.map fun pair => pair.2.amount).sum := by
  have hold : ∀ pair ∈ removed, V pair.1 = some pair.2 := fun pair hpair =>
    hv.removed pair.1 pair.2 (h.remove ((hremoved pair.1 pair.2).mp hpair))
  have hfree : ∀ pair ∈ added, clearAll V (removed.map Prod.fst) pair.1 = none := by
    intro pair hpair
    obtain ⟨ha, hc⟩ := h.add ((hadded pair.1 pair.2).mp hpair)
    rw [clearAll_apply]
    split_ifs with hmem
    · rfl
    have hR := (h.added pair.1 pair.2 ha hc).1
    refine (hv.added pair.1 (by simp [UTXOCollection.contains, ha])).resolve_right fun hcontains => hmem ?_
    obtain ⟨e, he⟩ := Option.isSome_iff_exists.mp hcontains
    exact mem_map.mpr ⟨(pair.1, e), (hremoved pair.1 e).mpr (hR.trans he), rfl⟩
  have hclear : total (fun _ e => e.amount) (clearAll V (removed.map Prod.fst)) +
      (removed.map fun pair => pair.2.amount).sum = total (fun _ e => e.amount) V :=
    total_clearAll hfinite hnodupR hold
  have hset : total (fun _ e => e.amount) (setAll (clearAll V (removed.map Prod.fst)) added) =
      total (fun _ e => e.amount) (clearAll V (removed.map Prod.fst)) + (added.map fun pair => pair.2.amount).sum :=
    total_setAll (hfinite.clearAll (removed.map Prod.fst)) hnodupA hfree
  unfold totalAmount
  rw [h.applyTo_eq hv hrecreates hremoved hadded hnodupA, hset]
  omega

variable {uis : UTXOIndexStore}

theorem unstaged_of_supply {n : ℕ} (h : getCirculatingSompiSupply uis = .ok n) :
    uis.toAdd = ∅ ∧ uis.toRemove = ∅ ∧ uis.circulatingSupply = some n := by
  have hempty : ∀ {staged : StagedPairs}, ¬ GoMap.size staged > 0 → staged = ∅ := fun {staged} hsize =>
    AList.ext (length_eq_zero_iff.mp (Nat.eq_zero_of_not_pos hsize))
  unfold getCirculatingSompiSupply at h
  split_ifs at h with hstaged
  unfold UTXOIndexStore.isAnythingStaged at hstaged
  simp only [Bool.or_eq_true, decide_eq_true_eq, not_or] at hstaged
  refine ⟨hempty hstaged.1, hempty hstaged.2, ?_⟩
  cases hsupply : uis.circulatingSupply with
  | none => simp [hsupply, throw, throwThe, MonadExceptOf.throw] at h
  | some m =>
    rw [hsupply] at h
    exact congrArg some (Except.ok.inj h)

theorem updateCirculatingSompiSupply_eq {supply a r : ℕ} (hsupply : supply < 2 ^ 64) (hr : r < 2 ^ 64) :
    updateCirculatingSompiSupply (some supply) a r = .ok (some ((supply + a + (2 ^ 64 - r)) % 2 ^ 64)) := by
  unfold updateCirculatingSompiSupply
  split_ifs with hne
  · rfl
  have heq : (supply + a + (2 ^ 64 - r)) % 2 ^ 64 = supply := by
    rw [not_not.mp hne]
    omega
  rw [heq]
  rfl

variable [OutpointCodec]

structure Updated (d : MutableUTXODiff) (uis uis' : UTXOIndexStore) (V R A : UTXOSet)
    (removed added : List (List UInt8 × DomainOutpoint × UTXOEntry)) : Prop where
  net : NetOf d R A
  mem_removed : ∀ k o e, (k, o, e) ∈ removed ↔ R o = some e ∧ k = keyOf e.scriptPublicKey o
  mem_added : ∀ k o e, (k, o, e) ∈ added ↔ A o = some e ∧ k = keyOf e.scriptPublicKey o
  nodup_removed : ((recordPairs removed).map Prod.fst).Nodup
  nodup_added : ((recordPairs added).map Prod.fst).Nodup
  utxos : uis'.utxos = added.foldl (fun utxos record => utxos.insert record.1 record.2.2)
    (removed.foldl (fun utxos record => utxos.erase record.1) uis.utxos)
  supply : getCirculatingSompiSupply uis' = .ok ((totalAmount V +
    ((recordPairs added).map fun pair => pair.2.amount).sum +
      (2 ^ 64 - ((recordPairs removed).map fun pair => pair.2.amount).sum % 2 ^ 64)) % 2 ^ 64)

theorem update_ok (orders : Orders) (d : MutableUTXODiff) (hidx : uis.Indexes V) :
    ∃ uis' R A removed added, update orders d uis = .ok uis' ∧ Updated d uis uis' V R A removed added := by
  obtain ⟨hadd, hremove, hsupply⟩ := unstaged_of_supply hidx.supply
  obtain ⟨toAdd, toRemove, R, A, hstage, hR, hA, hnet⟩ := stages_diff orders d uis hadd hremove
  have hmap : ∀ records : List (List UInt8 × DomainOutpoint × UTXOEntry),
      ((records.map fun record => record.2.2).map (·.amount)) = (recordPairs records).map fun pair => pair.2.amount := by
    intro records
    rw [recordPairs, map_map, map_map]
    rfl
  have hlt : ∀ n : ℕ, n % 2 ^ 64 < 2 ^ 64 := fun n => Nat.mod_lt _ (by norm_num)
  refine ⟨⟨_, some _, ∅, ∅⟩, R, A, stagedRecords orders toRemove, stagedRecords orders toAdd, ?_, hnet,
    fun k o e => mem_stagedRecords hR, fun k o e => mem_stagedRecords hA, nodup_recordPairs hR, nodup_recordPairs hA,
    rfl, rfl⟩
  have hassoc : update orders d uis = (do
      let uis ← (do
        let uis ← removeUTXOs orders d.toRemove uis
        addUTXOs orders d.toAdd uis)
      uis.commit orders) := by
    rw [bind_assoc]
    rfl
  rw [hassoc, hstage, ok_bind]
  unfold UTXOIndexStore.commit
  dsimp only
  rw [hsupply, sompiSupply_eq, sompiSupply_eq, hmap, hmap, updateCirculatingSompiSupply_eq (hlt _) (hlt _), ok_bind]
  generalize ((recordPairs (stagedRecords orders toAdd)).map fun pair => pair.2.amount).sum = a
  generalize ((recordPairs (stagedRecords orders toRemove)).map fun pair => pair.2.amount).sum = r
  rw [show (totalAmount V % 2 ^ 64 + a % 2 ^ 64 + (2 ^ 64 - r % 2 ^ 64)) % 2 ^ 64 =
    (totalAmount V + a + (2 ^ 64 - r % 2 ^ 64)) % 2 ^ 64 by omega]
  rfl

section
variable {uis uis' : UTXOIndexStore} {removed added : List (List UInt8 × DomainOutpoint × UTXOEntry)} {k : List UInt8}
  (h : Updated d uis uis' V R A removed added)

include h

theorem Updated.lookup_of_put (hapart : KeysApart (d.applyTo V)) (hA : A o = some e) : uis'.utxos.lookup (keyOf e.scriptPublicKey o) = some e := by
  rw [h.utxos]
  refine lookup_puts_of_mem ?_ (mem_map.mpr ⟨(_, o, e), (h.mem_added _ o e).mpr ⟨hA, rfl⟩, rfl⟩)
  rintro ⟨k, o', e'⟩ hrecord rfl
  obtain ⟨hA', hk⟩ := (h.mem_added _ o' e').mp hrecord
  obtain rfl : o' = o := hapart o' e' o e (h.net.applyTo_of_add hA') (h.net.applyTo_of_add hA) hk.symm
  exact Option.some.inj (hA'.symm.trans hA)

variable (hnotput : ∀ o e, A o = some e → k ≠ keyOf e.scriptPublicKey o)
include hnotput in
theorem Updated.notMem_added : k ∉ added.map Prod.fst := by
  intro hmem
  obtain ⟨⟨k', o, e⟩, hrecord, rfl⟩ := mem_map.mp hmem
  obtain ⟨hA, hk⟩ := (h.mem_added _ o e).mp hrecord
  exact hnotput o e hA hk

theorem Updated.lookup_of_deleted (hnotput : ∀ o e, A o = some e → k ≠ keyOf e.scriptPublicKey o)
    (hR : R o = some e) (hk : k = keyOf e.scriptPublicKey o) :
    uis'.utxos.lookup k = none := by
  rw [h.utxos, lookup_puts_of_notMem (h.notMem_added hnotput), lookup_deletes,
    if_pos (mem_map.mpr ⟨(k, o, e), (h.mem_removed k o e).mpr ⟨hR, hk⟩, rfl⟩)]

include hnotput in
theorem Updated.lookup_of_kept (hnotdeleted : ∀ o e, R o = some e → k ≠ keyOf e.scriptPublicKey o) :
    uis'.utxos.lookup k = uis.utxos.lookup k := by
  rw [h.utxos, lookup_puts_of_notMem (h.notMem_added hnotput), lookup_deletes, if_neg]
  intro hmem
  obtain ⟨⟨k', o, e⟩, hrecord, rfl⟩ := mem_map.mp hmem
  obtain ⟨hR, hk⟩ := (h.mem_removed _ o e).mp hrecord
  exact hnotdeleted o e hR hk

theorem Updated.records (hidx : uis.Indexes V) (hV : Fits V) (hv : d.ValidOn V)
    (hrecreates : ¬ Recreates d) (hapart : KeysApart (d.applyTo V)) (k : List UInt8) (e : UTXOEntry) :
    uis'.utxos.lookup k = some e ↔ ∃ o, d.applyTo V o = some e ∧ k = keyOf e.scriptPublicKey o := by
  by_cases hput : ∃ o₁ e₁, A o₁ = some e₁ ∧ k = keyOf e₁.scriptPublicKey o₁
  · obtain ⟨o₁, e₁, hA, rfl⟩ := hput
    have hV₁ := h.net.applyTo_of_add (V := V) hA
    rw [h.lookup_of_put hapart hA]
    constructor
    · rintro ⟨rfl⟩
      exact ⟨o₁, hV₁, rfl⟩
    rintro ⟨o, ho, hk⟩
    obtain rfl : o₁ = o := hapart o₁ e₁ o e hV₁ ho hk
    exact hV₁.symm.trans ho
  have hnotput : ∀ o e, A o = some e → k ≠ keyOf e.scriptPublicKey o := fun o e hA hk => hput ⟨o, e, hA, hk⟩
  -- An outpoint of the new set under this key is neither added nor removed, so it is one of the old set.
  have hold : ∀ o, d.applyTo V o = some e → k = keyOf e.scriptPublicKey o → R o = none ∧ V o = some e := by
    intro o ho hk
    have hA : A o = none := by
      refine Option.eq_none_iff_forall_ne_some.mpr fun e₁ hA => hnotput o e ?_ hk
      rw [hA, ← h.net.applyTo_of_add (V := V) hA, ho]
    have hR : R o = none := by
      refine Option.eq_none_iff_forall_ne_some.mpr fun e₁ hR => ?_
      rw [h.net.applyTo_of_remove hA hR] at ho
      cases ho
    exact ⟨hR, h.net.applyTo_of_none hv hrecreates hA hR ▸ ho⟩
  by_cases hdeleted : ∃ o₁ e₁, R o₁ = some e₁ ∧ k = keyOf e₁.scriptPublicKey o₁
  · obtain ⟨o₁, e₁, hR, hk₁⟩ := hdeleted
    rw [h.lookup_of_deleted hnotput hR hk₁]
    refine ⟨nofun, ?_⟩
    rintro ⟨o, ho, hk⟩
    obtain ⟨hnone, hVo⟩ := hold o ho hk
    obtain rfl : o₁ = o := hidx.has.keysApart hV o₁ e₁ o e (hv.removed o₁ e₁ (h.net.remove hR)) hVo (hk₁.symm.trans hk)
    rw [hR] at hnone
    cases hnone
  have hnotdeleted : ∀ o e, R o = some e → k ≠ keyOf e.scriptPublicKey o := fun o e hR hk => hdeleted ⟨o, e, hR, hk⟩
  rw [h.lookup_of_kept hnotput hnotdeleted, hidx.records k e]
  refine exists_congr fun o => and_congr_left fun hk => ⟨fun hVo => ?_, fun ho => (hold o ho hk).2⟩
  have hR : R o = none := by
    refine Option.eq_none_iff_forall_ne_some.mpr fun e₁ hR => hnotdeleted o e ?_ hk
    rw [hR, ← hv.removed o e₁ (h.net.remove hR), hVo]
  have hA : A o = none := by
    refine Option.eq_none_iff_forall_ne_some.mpr fun e₁ hA => ?_
    obtain ⟨ha, hc⟩ := h.net.add hA
    rcases hv.added o (by simp [UTXOCollection.contains, ha]) with hnone | hcontains
    · rw [hVo] at hnone
      cases hnone
    obtain ⟨e₂, he₂⟩ := Option.isSome_iff_exists.mp hcontains
    rw [(h.net.added o e₁ ha hc).1] at hR
    exact Option.some_ne_none e₂ (he₂.symm.trans hR)
  rw [h.net.applyTo_of_none hv hrecreates hA hR, hVo]

theorem Updated.mem_recordPairs :
    (∀ o e, (o, e) ∈ recordPairs removed ↔ R o = some e) ∧ (∀ o e, (o, e) ∈ recordPairs added ↔ A o = some e) := by
  have hgeneral : ∀ {records : List (List UInt8 × DomainOutpoint × UTXOEntry)} {S : UTXOSet},
      (∀ k o e, (k, o, e) ∈ records ↔ S o = some e ∧ k = keyOf e.scriptPublicKey o) →
        ∀ o e, (o, e) ∈ recordPairs records ↔ S o = some e := by
    intro records S hrecords o e
    constructor
    · intro hmem
      obtain ⟨⟨k, o', e'⟩, hrecord, heq⟩ := mem_map.mp hmem
      obtain ⟨rfl, rfl⟩ := Prod.mk.inj heq
      exact ((hrecords k o' e').mp hrecord).1
    · intro hS
      exact mem_map.mpr ⟨(_, o, e), (hrecords _ o e).mpr ⟨hS, rfl⟩, rfl⟩
  exact ⟨hgeneral h.mem_removed, hgeneral h.mem_added⟩

theorem Updated.indexes (hidx : uis.Indexes V) (hV : Fits V) (hfinite : FinitelyMany V)
    (hv : d.ValidOn V) (hrecreates : ¬ Recreates d) (hapart : KeysApart (d.applyTo V)) :
    uis'.Indexes (d.applyTo V) := by
  refine ⟨h.records hidx hV hv hrecreates hapart, ?_⟩
  have htotal := h.net.totalAmount_eq hv hrecreates hfinite h.mem_recordPairs.1 h.mem_recordPairs.2 h.nodup_removed
    h.nodup_added
  rw [h.supply]
  congr 1
  omega

theorem Updated.not_recreates (hidx : uis.Indexes V) (hV : Fits V) (hv : d.ValidOn V)
    (hapart : KeysApart (d.applyTo V)) (hhas : uis'.Has (d.applyTo V)) : ¬ Recreates d := by
  rintro ⟨o, e, e', hremove, hadd, hscript, hne⟩
  have hVo := hv.removed o e hremove
  have hVo' : d.applyTo V o = some e' := by
    unfold MutableUTXODiff.applyTo UTXOCollection.get
    rw [hadd]
  obtain ⟨hR, hA⟩ := h.net.cancelled o e' hadd ⟨e, hremove, hscript⟩
  have hkey : keyOf e'.scriptPublicKey o = keyOf e.scriptPublicKey o := by
    unfold keyOf convertOutpointToKey Bucket.key
    rw [path_eq, path_eq, hscript]
  have hnotput : ∀ o₁ e₁, A o₁ = some e₁ → keyOf e'.scriptPublicKey o ≠ keyOf e₁.scriptPublicKey o₁ := by
    intro o₁ e₁ hA₁ hk
    obtain rfl : o = o₁ := hapart o e' o₁ e₁ hVo' (h.net.applyTo_of_add hA₁) hk
    rw [hA] at hA₁
    cases hA₁
  have hnotdeleted : ∀ o₁ e₁, R o₁ = some e₁ → keyOf e'.scriptPublicKey o ≠ keyOf e₁.scriptPublicKey o₁ := by
    intro o₁ e₁ hR₁ hk
    obtain rfl : o = o₁ := hidx.has.keysApart hV o e o₁ e₁ hVo (hv.removed o₁ e₁ (h.net.remove hR₁)) (hkey ▸ hk)
    rw [hR] at hR₁
    cases hR₁
  have hnew := hhas o e' hVo'
  rw [h.lookup_of_kept hnotput hnotdeleted, hkey, (hidx.records _ e).mpr ⟨o, hVo, rfl⟩] at hnew
  exact hne (Option.some.inj hnew)

end

/-- The index follows a diff that re-creates nothing, and lacks an entry after another one. -/
theorem update_indexes (orders : Orders) {d : MutableUTXODiff} (hidx : uis.Indexes V) (hfinite : FinitelyMany V)
    (hV : Fits V) (hV' : Fits (d.applyTo V)) (hv : d.ValidOn V) : ∃ uis', update orders d uis = .ok uis' ∧
      (uis'.Has (d.applyTo V) → ¬ Recreates d) ∧
      (¬ Recreates d → KeysApart (d.applyTo V) → uis'.Indexes (d.applyTo V)) := by
  obtain ⟨uis', R, A, removed, added, hupdate, h⟩ := update_ok orders d hidx
  exact ⟨uis', hupdate, fun hhas => h.not_recreates hidx hV hv (hhas.keysApart hV') hhas, h.indexes hidx hV hfinite hv⟩

end Kaspad.UTXOIndex
