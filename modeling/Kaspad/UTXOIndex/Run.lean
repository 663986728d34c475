import Kaspad.Lib.Varint
import Kaspad.UTXOIndex.Update

/-! # Runs of the UTXO index

`Reset` writes the virtual UTXO set in chunks, and every `Update` follows one change of it.
-/

namespace Kaspad.UTXOIndex
open Lib List GoMap AList

/-! ## Reset -/

section
variable {pairs : List (DomainOutpoint × UTXOEntry)}
  {done rest : List (DomainOutpoint × UTXOEntry)} (hnodup : (pairs.map Prod.fst).Nodup)

include hnodup in
theorem getVirtualUTXOs_eq (hpairs : pairs = done ++ rest) (limit : ℕ) :
    getVirtualUTXOs pairs (done.getLast?.map Prod.fst) limit = .ok (rest.take limit) := by
  subst hpairs
  rcases eq_nil_or_concat done with rfl | ⟨init, last, rfl⟩
  · rfl
  rw [concat_eq_append] at hnodup ⊢
  rw [List.getLast?_append_cons, append_assoc]
  have hinit : ∀ pair ∈ init, decide (pair.1 ≠ last.1) = true := by
    intro pair hpair
    rw [append_assoc, map_append, nodup_append] at hnodup
    exact decide_eq_true (hnodup.2.2 pair.1 (mem_map.mpr ⟨pair, hpair, rfl⟩) last.1 (by simp))
  have hdrop : (init ++ ([last] ++ rest)).dropWhile (fun pair => decide (pair.1 ≠ last.1)) = last :: rest := by
    rw [dropWhile_append_of_pos hinit, singleton_append, dropWhile_cons_of_neg (by simp)]
  simp only [Option.map_some, getVirtualUTXOs, List.getLast?_singleton, hdrop]
  rfl

variable {uis : UTXOIndexStore} {supply rounds : ℕ} {V : UTXOSet}

section
variable [OutpointCodec]

def recordsOf (pairs : List (DomainOutpoint × UTXOEntry)) : List (List UInt8 × DomainOutpoint × UTXOEntry) :=
  pairs.map fun pair => (keyOf pair.2.scriptPublicKey pair.1, pair)

def UTXOIndexStore.withPairs (uis : UTXOIndexStore) (supply : ℕ) (pairs : List (DomainOutpoint × UTXOEntry)) :
    UTXOIndexStore :=
  { uis with
    utxos := (recordsOf pairs).foldl (fun utxos record => utxos.insert record.1 record.2.2) uis.utxos
    circulatingSupply := some ((supply + (pairs.map fun pair => pair.2.amount).sum) % 2 ^ 64) }

theorem addAndCommitOutpointsWithoutTransaction_eq (hsupply : uis.circulatingSupply = some (supply % 2 ^ 64)) :
    uis.addAndCommitOutpointsWithoutTransaction pairs = .ok (uis.withPairs supply pairs) := by
  have hamounts : ((pairs.map Prod.snd).map (·.amount)) = pairs.map fun pair => pair.2.amount := by
    rw [map_map]
    rfl
  unfold UTXOIndexStore.addAndCommitOutpointsWithoutTransaction UTXOIndexStore.withPairs recordsOf
  rw [hsupply, sompiSupply_eq, hamounts, foldl_map,
    updateCirculatingSompiSupply_eq (Nat.mod_lt _ (by norm_num)) (by norm_num), ok_bind]
  generalize (pairs.map fun pair => pair.2.amount).sum = a
  rw [show (supply % 2 ^ 64 + a % 2 ^ 64 + (2 ^ 64 - 0)) % 2 ^ 64 = (supply + a) % 2 ^ 64 by omega]
  rfl

theorem withPairs_withPairs (uis : UTXOIndexStore) (supply : ℕ) (l l' : List (DomainOutpoint × UTXOEntry)) :
    (uis.withPairs supply l).withPairs (supply + (l.map fun pair => pair.2.amount).sum) l' =
      uis.withPairs supply (l ++ l') := by
  unfold UTXOIndexStore.withPairs recordsOf
  rw [map_append, foldl_append, map_append, sum_append, Nat.add_assoc]

-- Every round takes the next chunk, so the pairs of the database are those that were added followed by the rest.
include hnodup in
theorem resetLoop_ok (hpairs : pairs = done ++ rest) (hrounds : rest.length < rounds)
    (hsupply : uis.circulatingSupply = some (supply % 2 ^ 64)) :
    resetLoop pairs rounds (done.getLast?.map Prod.fst) uis = .ok (uis.withPairs supply rest) := by
  induction rounds generalizing done rest supply uis with
  | zero => omega
  | succ rounds ih =>
    rw [resetLoop, getVirtualUTXOs_eq hnodup hpairs, ok_bind, addAndCommitOutpointsWithoutTransaction_eq hsupply,
      ok_bind]
    by_cases hlast : (rest.take resetStep).length < resetStep
    · rw [if_pos hlast, take_of_length_le (by rw [length_take] at hlast; omega)]
      rfl
    rw [if_neg hlast]
    have hchunk : (rest.take resetStep).length = resetStep := by
      rw [length_take] at hlast ⊢
      omega
    have hnext : (rest.take resetStep).getLast? = (done ++ rest.take resetStep).getLast? := by
      rw [List.getLast?_append_of_ne_nil]
      intro hnil
      rw [hnil] at hchunk
      cases hchunk
    have hlength : (rest.drop resetStep).length < rounds := by
      rw [length_take] at hchunk
      rw [length_drop]
      have : resetStep = 1000 := rfl
      omega
    rw [hnext, ih (by rw [append_assoc, take_append_drop, hpairs]) hlength rfl, withPairs_withPairs,
      take_append_drop]

def resetTo (pairs : List (DomainOutpoint × UTXOEntry)) (uis : UTXOIndexStore) : UTXOIndexStore :=
  { uis with utxos := ∅, circulatingSupply := some 0 }.withPairs 0 pairs

theorem utxos_resetTo (pairs : List (DomainOutpoint × UTXOEntry)) (uis : UTXOIndexStore) : (resetTo pairs uis).utxos =
    (recordsOf pairs).foldl (fun utxos record => utxos.insert record.1 record.2.2) ∅ := rfl

include hnodup in
theorem reset_ok (hrounds : pairs.length < rounds) (uis : UTXOIndexStore) :
    reset rounds pairs uis = .ok (resetTo pairs uis) := by
  have hsupply : ({ uis with utxos := ∅, circulatingSupply := some 0 } : UTXOIndexStore).circulatingSupply =
    some (0 % 2 ^ 64) := rfl
  exact resetLoop_ok hnodup (nil_append pairs).symm hrounds hsupply

theorem records_resetTo (hmem : ∀ o e, (o, e) ∈ pairs ↔ V o = some e) (hapart : KeysApart V)
    (uis : UTXOIndexStore) (k : List UInt8) (e : UTXOEntry) :
    (resetTo pairs uis).utxos.lookup k = some e ↔ ∃ o, V o = some e ∧ k = keyOf e.scriptPublicKey o := by
  have hrecord : ∀ {k o e}, (k, o, e) ∈ recordsOf pairs ↔ V o = some e ∧ k = keyOf e.scriptPublicKey o := by
    intro k o e
    rw [← hmem]
    constructor
    · intro h
      obtain ⟨⟨o', e'⟩, hpair, heq⟩ := mem_map.mp h
      obtain ⟨rfl, rfl, rfl⟩ : _ = k ∧ o' = o ∧ e' = e := by simpa using heq
      exact ⟨hpair, rfl⟩
    · rintro ⟨hpair, rfl⟩
      exact mem_map.mpr ⟨(o, e), hpair, rfl⟩
  by_cases hk : k ∈ (recordsOf pairs).map Prod.fst
  · obtain ⟨⟨k', o₁, e₁⟩, h₁, rfl⟩ := mem_map.mp hk
    obtain ⟨hV₁, hk₁⟩ := hrecord.mp h₁
    have hsame : ∀ record ∈ recordsOf pairs, record.1 = k' → record.2.2 = e₁ := by
      rintro ⟨k, o, e⟩ h rfl
      obtain ⟨hV, hk⟩ := hrecord.mp h
      obtain rfl : o = o₁ := hapart o e o₁ e₁ hV hV₁ (hk.symm.trans hk₁)
      exact Option.some.inj (hV.symm.trans hV₁)
    rw [utxos_resetTo, lookup_puts_of_mem hsame hk]
    constructor
    · rintro ⟨rfl⟩
      exact ⟨o₁, hV₁, hk₁⟩
    rintro ⟨o, hV, hk⟩
    exact congrArg some (hsame _ (hrecord.mpr ⟨hV, hk⟩) rfl).symm
  · rw [utxos_resetTo, lookup_puts_of_notMem hk, lookup_empty]
    refine ⟨nofun, ?_⟩
    rintro ⟨o, hV, hkey⟩
    exact absurd (mem_map.mpr ⟨(k, o, e), hrecord.mpr ⟨hV, hkey⟩, rfl⟩) hk

end

variable (hmem : ∀ o e, (o, e) ∈ pairs ↔ V o = some e)
include hmem

theorem totalAmount_of_pairs (hnodup : (pairs.map Prod.fst).Nodup) :
    FinitelyMany V ∧ totalAmount V = (pairs.map fun pair => pair.2.amount).sum := by
  have hV : V = setAll (fun _ => none) pairs := by
    funext o
    cases ho : V o with
    | some e => rw [setAll_of_mem hnodup ((hmem o e).mpr ho)]
    | none =>
      rw [setAll_of_notMem]
      intro h
      obtain ⟨⟨o', e⟩, hpair, rfl⟩ := mem_map.mp h
      rw [(hmem o' e).mp hpair] at ho
      cases ho
  subst hV
  refine ⟨finitelyMany_none.setAll pairs, ?_⟩
  unfold totalAmount
  rw [total_setAll finitelyMany_none hnodup fun _ _ => rfl, total_none, Nat.zero_add]

theorem resetTo_indexes [OutpointCodec] (hnodup : (pairs.map Prod.fst).Nodup) (hadd : uis.toAdd = ∅)
    (hremove : uis.toRemove = ∅) (hapart : KeysApart V) : (resetTo pairs uis).Indexes V := by
  refine ⟨records_resetTo hmem hapart uis, ?_⟩
  rw [(totalAmount_of_pairs hmem hnodup).2]
  unfold resetTo UTXOIndexStore.withPairs
  rw [hadd, hremove, Nat.zero_add]
  rfl

end

/-! ## Runs -/

variable {V : UTXOSet} {uis : UTXOIndexStore} {updates : List (Orders × MutableUTXODiff)}

theorem finitelyMany_applyTo (h : FinitelyMany V) (d : MutableUTXODiff) : FinitelyMany (d.applyTo V) := by
  refine (h.union (finite_toSet d.toAdd.keys)).subset fun o ho => ?_
  rw [Set.mem_ofPred_eq, MutableUTXODiff.applyTo, UTXOCollection.get] at ho
  cases ha : d.toAdd.lookup o with
  | some e => exact Or.inr (mem_keys.mp (lookup_isSome.mp (by rw [ha]; rfl)))
  | none =>
    rw [ha] at ho
    refine Or.inl fun hV => ho ?_
    simp [hV]

section
variable [OutpointCodec] (asked : ScriptPublicKey → Prop)

/-- Under each of the scripts that are asked for, the index has the entries of `V` with that script and nothing else.
-/
structure UTXOIndexStore.Answers (uis : UTXOIndexStore) (V : UTXOSet) : Prop where
  entries : ∀ s o e, asked s → OutpointFits o →
    (uis.utxos.lookup (keyOf s o) = some e ↔ V o = some e ∧ e.scriptPublicKey = s)
  supply : getCirculatingSompiSupply uis = .ok (totalAmount V % 2 ^ 64)

/-- No key that is asked for is also that of an entry with another script or outpoint. -/
def BucketsApart (V : UTXOSet) : Prop :=
  ∀ o e s o', V o = some e → asked s → OutpointFits o' → keyOf s o' = keyOf e.scriptPublicKey o →
    s = e.scriptPublicKey ∧ o' = o

/-- The diffs are valid, the outpoints fit into their types, and the scripts of the entries are among those that are
asked for. -/
def ValidRun (V : UTXOSet) : List (Orders × MutableUTXODiff) → Prop
  | [] => Fits V ∧ ∀ o e, V o = some e → asked e.scriptPublicKey
  | (_, d) :: rest => (Fits V ∧ ∀ o e, V o = some e → asked e.scriptPublicKey) ∧ d.ValidOn V ∧ ValidRun (d.applyTo V) rest

/-- Every update returns, and the index answers before the first and after each one. -/
def Followed (uis : UTXOIndexStore) (V : UTXOSet) : List (Orders × MutableUTXODiff) → Prop
  | [] => uis.Answers asked V
  | (orders, d) :: rest =>
    uis.Answers asked V ∧ ∃ uis', update orders d uis = .ok uis' ∧ Followed uis' (d.applyTo V) rest

def Regular (V : UTXOSet) : List (Orders × MutableUTXODiff) → Prop
  | [] => BucketsApart asked V
  | (_, d) :: rest => BucketsApart asked V ∧ ¬ Recreates d ∧ Regular (d.applyTo V) rest

variable {asked}

theorem Followed.answers (h : Followed asked uis V updates) : uis.Answers asked V := by
  cases updates with
  | nil => exact h
  | cons u rest => exact h.1

theorem Regular.bucketsApart (h : Regular asked V updates) : BucketsApart asked V := by
  cases updates with
  | nil => exact h
  | cons u rest => exact h.1

omit [OutpointCodec] in
theorem ValidRun.fits (h : ValidRun asked V updates) : Fits V := by
  cases updates with
  | nil => exact h.1
  | cons u rest => exact h.1.1

omit [OutpointCodec] in
theorem ValidRun.asks (h : ValidRun asked V updates) : ∀ o e, V o = some e → asked e.scriptPublicKey := by
  cases updates with
  | nil => exact h.2
  | cons u rest => exact h.1.2

theorem BucketsApart.keysApart (h : BucketsApart asked V) (hvalid : ValidRun asked V updates) : KeysApart V :=
  fun o e o' e' ho ho' heq => (h o' e' e.scriptPublicKey o ho' (hvalid.asks o e ho) (hvalid.fits o e ho) heq).2

theorem UTXOIndexStore.Answers.has (h : uis.Answers asked V) (hvalid : ValidRun asked V updates) : uis.Has V :=
  fun o e ho => (h.entries e.scriptPublicKey o e (hvalid.asks o e ho) (hvalid.fits o e ho)).mpr ⟨ho, rfl⟩

/-- An index of `V` answers exactly if the keys that are asked for are nobody else's. -/
theorem UTXOIndexStore.Indexes.answers_iff (h : uis.Indexes V) (hV : Fits V) :
    uis.Answers asked V ↔ BucketsApart asked V := by
  constructor
  · intro hanswers o e s o' ho hs ho' heq
    have hlookup : uis.utxos.lookup (keyOf s o') = some e := (h.records _ e).mpr ⟨o, ho, heq⟩
    obtain ⟨hVo', rfl⟩ := (hanswers.entries s o' e hs ho').mp hlookup
    exact ⟨rfl, serializeOutpoint_injective ho' (hV o e ho) (append_cancel_left heq)⟩
  · refine fun hapart => ⟨fun s o e hs ho => (h.records _ e).trans ⟨?_, ?_⟩, h.supply⟩
    · rintro ⟨o', ho', heq⟩
      obtain ⟨rfl, rfl⟩ := hapart o' e s o ho' hs ho heq
      exact ⟨ho', rfl⟩
    · rintro ⟨hVo, rfl⟩
      exact ⟨o, hVo, rfl⟩

theorem followed_iff (hidx : uis.Indexes V) (hfinite : FinitelyMany V) (hvalid : ValidRun asked V updates) :
    Followed asked uis V updates ↔ Regular asked V updates := by
  induction updates generalizing uis V with
  | nil => exact hidx.answers_iff hvalid.fits
  | cons u rest ih =>
    obtain ⟨orders, d⟩ := u
    have hanswers : uis.Answers asked V ↔ BucketsApart asked V := hidx.answers_iff hvalid.fits
    obtain ⟨hV, hv, hvalid⟩ := hvalid
    obtain ⟨uis', hupdate, hnot, hindexes⟩ := update_indexes orders hidx hfinite hV.1 hvalid.fits hv
    constructor
    · rintro ⟨hbefore, uis'', hupdate', hrest⟩
      obtain rfl : uis' = uis'' := Except.ok.inj (hupdate.symm.trans hupdate')
      have hhas := hrest.answers.has hvalid
      have hidx' := hindexes (hnot hhas) (hhas.keysApart hvalid.fits)
      exact ⟨hanswers.mp hbefore, hnot hhas, (ih hidx' (finitelyMany_applyTo hfinite d) hvalid).mp hrest⟩
    · rintro ⟨hapart, hrecreates, hregular⟩
      have hidx' := hindexes hrecreates (hregular.bucketsApart.keysApart hvalid)
      exact ⟨hanswers.mpr hapart, uis', hupdate, (ih hidx' (finitelyMany_applyTo hfinite d) hvalid).mpr hregular⟩

/-- The index follows exactly if no diff re-creates an outpoint under its script with another entry, and no key that is
asked for is that of another script's entry. -/
theorem reset_then_updates_followed_iff (asked : ScriptPublicKey → Prop) (virtualUTXOs : UTXOCollection)
    (dbOrder : DomainOutpoint → ℕ) (updates : List (Orders × MutableUTXODiff)) (uis : UTXOIndexStore)
    (hadd : uis.toAdd = ∅) (hremove : uis.toRemove = ∅) (hvalid : ValidRun asked virtualUTXOs.get updates) :
    ∃ uis', (∀ rounds > GoMap.size virtualUTXOs, reset rounds (virtualUTXOs.pairsBy dbOrder) uis = .ok uis') ∧
      (Followed asked uis' virtualUTXOs.get updates ↔ Regular asked virtualUTXOs.get updates) := by
  have hnodup := nodup_keys_pairsBy dbOrder virtualUTXOs
  have hmem : ∀ o e, (o, e) ∈ virtualUTXOs.pairsBy dbOrder ↔ virtualUTXOs.get o = some e :=
    fun o e => mem_pairsBy
  refine ⟨_, fun rounds hrounds => reset_ok hnodup (by rwa [length_pairsBy]) uis, ?_⟩
  have hreset := resetTo_indexes hmem hnodup hadd hremove
  have hfinite := (totalAmount_of_pairs hmem hnodup).1
  by_cases hapart : KeysApart virtualUTXOs.get
  · exact followed_iff (hreset hapart) hfinite hvalid
  · exact iff_of_false (fun h => hapart ((h.answers.has hvalid).keysApart hvalid.fits))
      fun h => hapart (h.bucketsApart.keysApart hvalid)

end

/-- A script public key without a separator byte, which no other bucket contains. -/
def Plain (s : ScriptPublicKey) : Prop := s.version < 2 ^ 16 ∧ bucketSeparator ∉ scriptPublicKeyString s

theorem bucketsApart_of_plain [OutpointCodec] (hV : Fits V) (hplain : ∀ o e, V o = some e → Plain e.scriptPublicKey) :
    BucketsApart Plain V := by
  intro o e s o' ho hs ho' heq
  have he := hplain o e ho
  obtain rfl : s = e.scriptPublicKey := by
    by_contra hne
    refine not_collides_of_no_separator hs.1 he.1 hs.2 he.2 hne o ((covers_keyOf_iff s e.scriptPublicKey o).mp ?_)
    exact heq ▸ prefix_append _ _
  exact ⟨rfl, serializeOutpoint_injective ho' (hV o e ho) (append_cancel_left heq)⟩

/-! ## The encoding of `DbOutpoint` -/

/-- The field of the index is left out for the index 0. -/
def canonicalMarshal (o : DomainOutpoint) : List UInt8 :=
  [0x0a, 0x22, 0x0a, 0x20] ++ LittleEndian.encode 32 o.transactionID ++
    if o.index = 0 then [] else 0x10 :: Varint.encode 4 o.index

def canonicalUnmarshal (bytes : List UInt8) : Option DomainOutpoint :=
  if bytes.take 4 = [0x0a, 0x22, 0x0a, 0x20] then
    match bytes.drop 36 with
    | [] => some ⟨LittleEndian.decode ((bytes.drop 4).take 32), 0⟩
    | 0x10 :: index => (Varint.decode index).map fun i => ⟨LittleEndian.decode ((bytes.drop 4).take 32), i⟩
    | _ => none
  else none

theorem canonicalUnmarshal_canonicalMarshal (o : DomainOutpoint) (h : OutpointFits o) :
    canonicalUnmarshal (canonicalMarshal o) = some o := by
  have hid : LittleEndian.decode (((canonicalMarshal o).drop 4).take 32) = o.transactionID := by
    have htake : ((canonicalMarshal o).drop 4).take 32 = LittleEndian.encode 32 o.transactionID := by
      unfold canonicalMarshal
      rw [append_assoc, drop_left' (by simp), take_left' (by simp)]
    rw [htake]
    exact LittleEndian.decode_encode_of_lt (by norm_num; exact h.transactionID)
  have hindex : (canonicalMarshal o).drop 36 = if o.index = 0 then [] else 0x10 :: Varint.encode 4 o.index := by
    exact drop_left' (by simp)
  unfold canonicalUnmarshal
  rw [if_pos (by simp [canonicalMarshal]), hindex, hid]
  by_cases h0 : o.index = 0
  · rw [if_pos h0]
    simp only [← h0]
  have hlt : o.index < 128 ^ (4 + 1) := h.index.trans (by norm_num)
  rw [if_neg h0]
  simp only [Varint.decode_encode hlt, Option.map_some]

@[reducible] def canonicalCodec : OutpointCodec :=
  ⟨canonicalMarshal, canonicalUnmarshal, canonicalUnmarshal_canonicalMarshal⟩

/-! ## A spend and a reorg -/

section
attribute [local instance] canonicalCodec

def sampleOutpoint : DomainOutpoint := ⟨7, 0⟩

def sampleSpender : DomainOutpoint := ⟨8, 0⟩

def sampleEntry (blockDAAScore : ℕ) : UTXOEntry := ⟨500, ⟨[0x51], 0⟩, blockDAAScore, false⟩

def sampleVirtual : UTXOCollection := (∅ : UTXOCollection).insert sampleOutpoint (sampleEntry 1)

def sampleSpend : MutableUTXODiff where
  toAdd := (∅ : UTXOCollection).insert sampleSpender (sampleEntry 2)
  toRemove := (∅ : UTXOCollection).insert sampleOutpoint (sampleEntry 1)

def sampleReorg : MutableUTXODiff where
  toAdd := (∅ : UTXOCollection).insert sampleOutpoint (sampleEntry 2)
  toRemove := (∅ : UTXOCollection).insert sampleOutpoint (sampleEntry 1)

def sampleOrders : Orders := ⟨fun _ => 0, fun _ => 0⟩

def sampleStore : UTXOIndexStore := ⟨∅, none, ∅, ∅⟩

theorem eq_of_contains_single {o o₀ : DomainOutpoint} {e : UTXOEntry}
    (h : UTXOCollection.contains ((∅ : UTXOCollection).insert o₀ e) o = true) : o = o₀ := by
  by_contra hne
  rw [UTXOCollection.contains, lookup_set, if_neg hne, lookup_empty] at h
  cases h

theorem sampleVirtual_get (o : DomainOutpoint) :
    sampleVirtual.get o = if o = sampleOutpoint then some (sampleEntry 1) else none := by
  unfold sampleVirtual UTXOCollection.get
  rw [lookup_set]
  rfl

theorem applyTo_sampleSpend (o : DomainOutpoint) : sampleSpend.applyTo sampleVirtual.get o =
    if o = sampleSpender then some (sampleEntry 2) else none := by
  unfold MutableUTXODiff.applyTo sampleSpend UTXOCollection.get UTXOCollection.contains
  rw [lookup_set, lookup_set]
  by_cases ho : o = sampleSpender
  · rw [if_pos ho, if_pos ho]
  rw [if_neg ho, if_neg ho, lookup_empty]
  change (if _ then none else sampleVirtual.get o) = none
  rw [sampleVirtual_get]
  by_cases ho' : o = sampleOutpoint <;> simp [ho']

theorem plain_sampleEntry (blockDAAScore : ℕ) : Plain (sampleEntry blockDAAScore).scriptPublicKey := by
  refine ⟨show 0 < 2 ^ 16 by decide, ?_⟩
  change bucketSeparator ∉ scriptPublicKeyString ⟨[0x51], 0⟩
  decide

theorem reset_then_spend_followed : ∃ uis',
    (∀ rounds > GoMap.size sampleVirtual, reset rounds (sampleVirtual.pairsBy fun _ => 0) sampleStore = .ok uis') ∧
      Followed Plain uis' sampleVirtual.get [(sampleOrders, sampleSpend)] := by
  have hget : ∀ o e, sampleVirtual.get o = some e → o = sampleOutpoint ∧ e = sampleEntry 1 := by
    intro o e h
    rw [sampleVirtual_get] at h
    split_ifs at h with ho
    exact ⟨ho, (Option.some.inj h).symm⟩
  have happly : ∀ o e, sampleSpend.applyTo sampleVirtual.get o = some e → o = sampleSpender ∧ e = sampleEntry 2 := by
    intro o e h
    rw [applyTo_sampleSpend] at h
    split_ifs at h with ho
    exact ⟨ho, (Option.some.inj h).symm⟩
  have hfits : Fits sampleVirtual.get := fun o e h => (hget o e h).1 ▸ ⟨by decide, by decide⟩
  have hplain : ∀ o e, sampleVirtual.get o = some e → Plain e.scriptPublicKey :=
    fun o e h => (hget o e h).2 ▸ plain_sampleEntry 1
  have hfits' : Fits (sampleSpend.applyTo sampleVirtual.get) := fun o e h => (happly o e h).1 ▸ ⟨by decide, by decide⟩
  have hplain' : ∀ o e, sampleSpend.applyTo sampleVirtual.get o = some e → Plain e.scriptPublicKey :=
    fun o e h => (happly o e h).2 ▸ plain_sampleEntry 2
  have hvalid : ValidRun Plain sampleVirtual.get [(sampleOrders, sampleSpend)] := by
    refine ⟨⟨hfits, hplain⟩, ⟨fun o e h => h, fun o h => Or.inl ?_⟩, hfits', hplain'⟩
    rw [sampleVirtual_get, eq_of_contains_single h]
    decide
  have hregular : Regular Plain sampleVirtual.get [(sampleOrders, sampleSpend)] := by
    refine ⟨bucketsApart_of_plain hfits hplain, ?_, bucketsApart_of_plain hfits' hplain'⟩
    rintro ⟨o, e, e', hremove, hadd, -, -⟩
    have hnone : sampleSpend.toAdd.lookup sampleOutpoint = none := by decide
    rw [(hget o e hremove).1, hnone] at hadd
    cases hadd
  obtain ⟨uis', hreset, hiff⟩ := reset_then_updates_followed_iff Plain sampleVirtual (fun _ => 0)
    [(sampleOrders, sampleSpend)] sampleStore rfl rfl hvalid
  exact ⟨uis', hreset, hiff.mpr hregular⟩

/-- The index keeps the entry of the block that lost. -/
theorem reorg_keeps_old_entry : (do
      let uis ← reset 2 (sampleVirtual.pairsBy fun _ => 0) sampleStore
      let uis ← update sampleOrders sampleReorg uis
      pure (uis.utxos.lookup (keyOf (sampleEntry 2).scriptPublicKey sampleOutpoint))) = .ok (some (sampleEntry 1)) ∧
    sampleReorg.ValidOn sampleVirtual.get ∧
    sampleReorg.applyTo sampleVirtual.get sampleOutpoint = some (sampleEntry 2) := by
  refine ⟨by decide +kernel, ⟨fun o e h => h, fun o h => Or.inr ?_⟩, by decide⟩
  rw [eq_of_contains_single h]
  decide

end

end Kaspad.UTXOIndex
