import Kaspad.Lib.Iterator
import Kaspad.UTXO.DiffCompose

/-! # Iterating over a UTXO set with a diff

`domain/consensus/utils/utxo/utxo_iterator_with_diff.go` over any base iterator, and the iterator of a
collection of `utxo_iterator.go`. `Close` is left out. The inner loop of `Next` over the base runs on
fuel; a nil outpoint or entry is an error.
-/

namespace Kaspad
open Lib UTXOCollection MutableUTXODiff

inductive IteratorError
  | outOfRange
  | noCurrent
  | outOfFuel
  deriving DecidableEq

abbrev UTXOSetIterator (σ : Type) := Iterator IteratorError σ (DomainOutpoint × UTXOEntry)

structure UTXOCollectionIterator where
  index : ℤ
  pairs : List (DomainOutpoint × UTXOEntry)

def UTXOCollection.iterator (uc : UTXOCollection) : UTXOCollectionIterator :=
  { index := -1, pairs := uc.entries.map fun e => (e.1, e.2) }

def collectionIterator : UTXOSetIterator UTXOCollectionIterator where
  first uci := .ok (decide (0 < uci.pairs.length), { uci with index := 0 })
  next uci := .ok (decide (uci.index + 1 < uci.pairs.length), { uci with index := uci.index + 1 })
  get uci :=
    match uci.pairs[uci.index.toNat]? with
    | some pair => .ok pair
    | none => .error .outOfRange

structure ReadOnlyUTXOIteratorWithDiff (σ : Type) where
  baseIterator : σ
  diff : MutableUTXODiff
  current : Option (DomainOutpoint × UTXOEntry)
  toAddIterator : UTXOCollectionIterator

inductive AnyIterator (σ : Type)
  | other (iterator : σ)
  | withDiff (iterator : ReadOnlyUTXOIteratorWithDiff σ)

variable {σ : Type}

def iteratorWithDiff : AnyIterator σ → MutableUTXODiff → Except DiffError (ReadOnlyUTXOIteratorWithDiff σ)
  | .other iterator, diff => .ok ⟨iterator, diff, none, diff.toAdd.iterator⟩
  | .withDiff r, diff => do
    let combinedDiff ← withDiff r.diff diff
    return ⟨r.baseIterator, combinedDiff, none, combinedDiff.toAdd.iterator⟩

def isRemoved (diff : MutableUTXODiff) (pair : DomainOutpoint × UTXOEntry) : Bool :=
  diff.toRemove.containsWithDAAScore pair.1 pair.2.blockDAAScore

namespace ReadOnlyUTXOIteratorWithDiff
variable (base : UTXOSetIterator σ)

def next : ℕ → ReadOnlyUTXOIteratorWithDiff σ → Except IteratorError (Bool × ReadOnlyUTXOIteratorWithDiff σ)
  | 0, _ => .error .outOfFuel
  | fuel + 1, r => do
    let (more, baseIterator) ← base.next r.baseIterator
    if more then
      let pair ← base.get baseIterator
      let r := { r with baseIterator := baseIterator, current := some pair }
      if isRemoved r.diff pair then next fuel r else return (true, r)
    else
      let (more, toAddIterator) ← collectionIterator.next r.toAddIterator
      let r := { r with baseIterator := baseIterator, toAddIterator := toAddIterator }
      if more then
        let pair ← collectionIterator.get toAddIterator
        return (true, { r with current := some pair })
      else
        return (false, r)

def first (fuel : ℕ) (r : ReadOnlyUTXOIteratorWithDiff σ) :
    Except IteratorError (Bool × ReadOnlyUTXOIteratorWithDiff σ) := do
  let (baseNotEmpty, baseIterator) ← base.first r.baseIterator
  let r := { r with baseIterator := baseIterator, toAddIterator := r.diff.toAdd.iterator }
  if !baseNotEmpty then
    if r.diff.toAdd.entries.length = 0 then return (false, r) else next base fuel r
  else
    let pair ← base.get baseIterator
    let r := { r with current := some pair }
    if isRemoved r.diff pair then next base fuel r else return (true, r)

def iterator (fuel : ℕ) : UTXOSetIterator (ReadOnlyUTXOIteratorWithDiff σ) where
  first := first base fuel
  next := next base fuel
  get r :=
    match r.current with
    | some pair => .ok pair
    | none => .error .noCurrent

end ReadOnlyUTXOIteratorWithDiff

theorem collectionIterator_ended {uci : UTXOCollectionIterator} (h : uci.pairs.length ≤ uci.index + 1) :
    collectionIterator.Ended uci := by
  refine ⟨fun uci => uci.pairs.length ≤ uci.index + 1, h, ?_⟩
  intro uci h
  refine ⟨{ uci with index := uci.index + 1 }, ?_, by dsimp only; omega⟩
  simp only [collectionIterator, decide_eq_false (show ¬ uci.index + 1 < uci.pairs.length by omega)]

theorem collectionIterator_ahead (pairs : List (DomainOutpoint × UTXOEntry)) (i n : ℕ)
    (h : i + n = pairs.length) : collectionIterator.Ahead ⟨(i : ℤ) - 1, pairs⟩ (pairs.drop i) := by
  induction n generalizing i with
  | zero =>
    rw [List.drop_eq_nil_of_le (by omega)]
    apply Iterator.Ahead.ended
    apply collectionIterator_ended
    show (pairs.length : ℤ) ≤ i - 1 + 1
    omega
  | succ n ih =>
    have hi : i < pairs.length := by omega
    rw [List.drop_eq_getElem_cons hi]
    have hnext := ih (i + 1) (by omega)
    rw [show ((i + 1 : ℕ) : ℤ) - 1 = i by omega] at hnext
    refine .next ?_ ?_ hnext
    · simp [collectionIterator, hi]
    · simp [collectionIterator, hi]

/-! ## The iterator with a diff -/

namespace ReadOnlyUTXOIteratorWithDiff

structure Standing (base : UTXOSetIterator σ) (d : MutableUTXODiff) (r : ReadOnlyUTXOIteratorWithDiff σ)
    (l₁ l₂ : List (DomainOutpoint × UTXOEntry)) : Prop where
  diff : r.diff = d
  base : base.Ahead r.baseIterator l₁
  toAdd : collectionIterator.Ahead r.toAddIterator l₂

def remaining (d : MutableUTXODiff) (l₁ l₂ : List (DomainOutpoint × UTXOEntry)) : List (DomainOutpoint × UTXOEntry) :=
  l₁.filter (fun pair => !isRemoved d pair) ++ l₂

variable {base : UTXOSetIterator σ} {d : MutableUTXODiff} {r : ReadOnlyUTXOIteratorWithDiff σ}
  {l₁ l₂ : List (DomainOutpoint × UTXOEntry)} {fuel : ℕ}

theorem next_standing (h : Standing base d r l₁ l₂) (hfuel : l₁.length < fuel) :
    ∃ r' l₁' l₂', Standing base d r' l₁' l₂' ∧ l₁'.length ≤ l₁.length ∧
      remaining d l₁' l₂' = (remaining d l₁ l₂).tail ∧ next base fuel r = .ok ((remaining d l₁ l₂).head?.isSome, r') ∧
      ∀ x, (remaining d l₁ l₂).head? = some x → r'.current = some x := by
  obtain ⟨hdiff, hbase, hadd⟩ := h
  generalize hs : r.baseIterator = s at hbase
  induction hbase generalizing r fuel with
  | ended hended =>
    obtain ⟨fuel, rfl⟩ := Nat.exists_eq_add_of_lt hfuel
    obtain ⟨s', hs', hended'⟩ := hended.next
    subst hs
    cases hadd with
    | ended hadd =>
      obtain ⟨t', ht', hadd'⟩ := hadd.next
      refine ⟨{ r with baseIterator := s', toAddIterator := t' }, [], [],
        ⟨hdiff, .ended hended', .ended hadd'⟩, le_rfl, rfl, ?_, by simp [remaining]⟩
      simp [next, remaining, hs', ht', pure, Except.pure]
    | @next _ t' x _ ht' hx hadd' =>
      refine ⟨{ r with baseIterator := s', toAddIterator := t', current := some x }, [], _,
        ⟨hdiff, .ended hended', hadd'⟩, le_rfl, rfl, ?_, by simp [remaining]⟩
      simp [next, remaining, hs', ht', hx, pure, Except.pure]
  | @next _ s' x l hnext hget hahead ih =>
    obtain ⟨fuel, rfl⟩ := Nat.exists_eq_add_of_lt hfuel
    subst hs
    cases hx : isRemoved d x with
    | true =>
      -- The loop goes on with the rest of the base.
      obtain ⟨r', l₁', l₂', hstanding, hlen, hrest, hnext', hcurrent⟩ :=
        @ih { r with baseIterator := s', current := some x } ((x :: l).length + fuel) (by simp; omega) hdiff hadd rfl
      have hremaining : remaining d (x :: l) l₂ = remaining d l l₂ := by simp [remaining, hx]
      rw [hremaining]
      refine ⟨r', l₁', l₂', hstanding, hlen.trans (by simp), hrest, ?_, hcurrent⟩
      rw [← hnext']
      simp [next, hnext, hget, hx, hdiff]
    | false =>
      refine ⟨{ r with baseIterator := s', current := some x }, l, l₂, ⟨hdiff, hahead, hadd⟩, ?_, ?_, ?_, ?_⟩
      · simp
      · simp [remaining, hx]
      · simp [next, remaining, hnext, hget, hx, hdiff, pure, Except.pure]
      · simp [remaining, hx]

theorem Standing.ahead (h : Standing base d r l₁ l₂) (hfuel : l₁.length < fuel) :
    (iterator base fuel).Ahead r (remaining d l₁ l₂) := by
  generalize hl : remaining d l₁ l₂ = l
  induction l generalizing r l₁ l₂ with
  | nil =>
    apply Iterator.Ahead.ended
    refine ⟨fun r => ∃ l₁ l₂, Standing base d r l₁ l₂ ∧ l₁.length < fuel ∧ remaining d l₁ l₂ = [],
      ⟨l₁, l₂, h, hfuel, hl⟩, ?_⟩
    intro r ⟨l₁, l₂, h, hfuel, hl⟩
    obtain ⟨r', l₁', l₂', h', hlen, hrest, hnext, -⟩ := next_standing h hfuel
    rw [hl] at hrest hnext
    exact ⟨r', hnext, l₁', l₂', h', hlen.trans_lt hfuel, hrest⟩
  | cons x l ih =>
    obtain ⟨r', l₁', l₂', h', hlen, hrest, hnext, hcurrent⟩ := next_standing h hfuel
    rw [hl] at hrest hnext hcurrent
    exact .next hnext (by simp [iterator, hcurrent x rfl]) (ih h' (hlen.trans_lt hfuel) hrest)

variable {l : List (DomainOutpoint × UTXOEntry)} {o : DomainOutpoint} {e : UTXOEntry} {S : UTXOSet}

/-- The base without what the diff removes, then what it adds. -/
theorem enumerates (h : base.Enumerates r.baseIterator l) (hfuel : l.length < fuel) :
    (iterator base fuel).Enumerates r (remaining r.diff l r.diff.toAdd.iterator.pairs) := by
  have hadd := collectionIterator_ahead r.diff.toAdd.iterator.pairs 0 _ (Nat.zero_add _)
  cases h with
  | @empty s' hfirst hended =>
    have hahead := Standing.ahead (r := { r with baseIterator := s', toAddIterator := r.diff.toAdd.iterator })
      ⟨rfl, .ended hended, hadd⟩ hfuel
    by_cases hempty : r.diff.toAdd.entries.length = 0
    · have hpairs : r.diff.toAdd.iterator.pairs = [] := by
        simp [UTXOCollection.iterator, List.length_eq_zero_iff.mp hempty]
      rw [hpairs] at hahead ⊢
      cases hahead with
      | ended hended' =>
        refine .empty ?_ hended'
        simp [iterator, first, hfirst, hempty, pure, Except.pure]
    · apply hahead.enumerates
      simp only [iterator, first, hfirst, ok_bind, Bool.not_false, if_pos, if_neg hempty]
  | @first s' x l hfirst hget hahead =>
    have hstanding : Standing base r.diff { r with
        baseIterator := s', toAddIterator := r.diff.toAdd.iterator, current := some x } l
        r.diff.toAdd.iterator.pairs := ⟨rfl, hahead, hadd⟩
    have hahead := hstanding.ahead (Nat.lt_of_succ_lt hfuel)
    cases hx : isRemoved r.diff x with
    | true =>
      have hremaining : ∀ l₂, remaining r.diff (x :: l) l₂ = remaining r.diff l l₂ := by simp [remaining, hx]
      rw [hremaining]
      apply hahead.enumerates
      simp [iterator, first, hfirst, hget, hx]
    | false =>
      have hremaining : ∀ l₂, remaining r.diff (x :: l) l₂ = x :: remaining r.diff l l₂ := by
        simp [remaining, hx]
      rw [hremaining]
      refine .first ?_ rfl hahead
      simp [iterator, first, hfirst, hget, hx, pure, Except.pure]

/-! ## What the iterator yields -/

/-- The list has each entry of the set once. -/
structure Lists (l : List (DomainOutpoint × UTXOEntry)) (S : UTXOSet) : Prop where
  nodup : (l.map Prod.fst).Nodup
  mem : ∀ o e, (o, e) ∈ l ↔ S o = some e

theorem mem_iterator_pairs {uc : UTXOCollection} : (o, e) ∈ uc.iterator.pairs ↔ uc.lookup o = some e := by
  rw [UTXOCollection.iterator, ← GoMap.mem_entries_iff uc ⟨o, e⟩, List.mem_map]
  constructor
  · intro ⟨e', he', heq⟩
    cases heq
    exact he'
  · intro h
    exact ⟨_, h, rfl⟩

theorem isRemoved_iff (hv : d.ValidOn S) (he : S o = some e) : isRemoved d (o, e) = d.toRemove.contains o := by
  unfold isRemoved containsWithDAAScore contains
  cases hr : d.toRemove.lookup o with
  | none => rfl
  | some f =>
    obtain rfl : f = e := Option.some.inj ((hv.removed o f hr).symm.trans he)
    simp

theorem lists_remaining (hl : Lists l S) (hv : d.ValidOn S) :
    Lists (remaining d l d.toAdd.iterator.pairs) (d.applyTo S) := by
  have hkept : ∀ o e, (o, e) ∈ l.filter (fun pair => !isRemoved d pair) ↔
      S o = some e ∧ d.toRemove.contains o = false := by
    intro o e
    rw [List.mem_filter, hl.mem]
    apply and_congr_right
    intro he
    rw [isRemoved_iff hv he, Bool.not_eq_true']
  have hfresh : ∀ o e f, d.toAdd.lookup o = some f → ¬ (S o = some e ∧ d.toRemove.contains o = false) := by
    intro o e f ha ⟨hS, hr⟩
    cases hv.added o (by simp [contains, ha]) with
    | inl h => rw [hS] at h; cases h
    | inr h => rw [hr] at h; cases h
  constructor
  · rw [remaining, List.map_append, List.nodup_append']
    refine ⟨hl.nodup.sublist (List.filter_sublist.map _), ?_, ?_⟩
    · rw [UTXOCollection.iterator, List.map_map]
      exact d.toAdd.nodupKeys
    intro o ho ho'
    obtain ⟨⟨o, e⟩, he, rfl⟩ := List.mem_map.mp ho
    obtain ⟨⟨o', f⟩, hf, heq⟩ := List.mem_map.mp ho'
    obtain rfl : o' = o := heq
    exact hfresh _ e f (mem_iterator_pairs.mp hf) ((hkept _ e).mp he)
  · intro o e
    rw [remaining, List.mem_append, hkept, mem_iterator_pairs, applyTo, UTXOCollection.get]
    cases ha : d.toAdd.lookup o with
    | none => cases hr : d.toRemove.contains o <;> simp
    | some f => rw [or_iff_right (hfresh o e f ha)]

end ReadOnlyUTXOIteratorWithDiff

open ReadOnlyUTXOIteratorWithDiff

/-- Driving the iterator yields the UTXO set after the diff, each outpoint once; a nested call combines the diffs.
-/
theorem iteratorWithDiff_yields (base : UTXOSetIterator σ) (s : σ)
    (l : List (DomainOutpoint × UTXOEntry)) (S : UTXOSet) (d : MutableUTXODiff) (fuel : ℕ)
    (hbase : base.Enumerates s l) (hl : Lists l S) (hv : d.ValidOn S) (hfuel : l.length < fuel) :
    ∃ r, iteratorWithDiff (.other s) d = .ok r ∧
      (∃ l', Lists l' (d.applyTo S) ∧ ∀ n ≥ l'.length, (iterator base fuel).drive (n + 1) r = .ok (some l')) ∧
      ∀ d₂, d₂.ValidOn (d.applyTo S) → (iteratorWithDiff (.withDiff r) d₂ = do
          let combined ← withDiff d d₂
          iteratorWithDiff (.other s) combined) ∧
        (d.Canonical → d₂.Canonical → DAAScoreDetermines (Occurs S [d, d₂]) →
          ∃ r₂, iteratorWithDiff (.withDiff r) d₂ = .ok r₂ ∧ ∃ l', Lists l' (d₂.applyTo (d.applyTo S)) ∧
              ∀ n ≥ l'.length, (iterator base fuel).drive (n + 1) r₂ = .ok (some l')) := by
  have hyields : ∀ d : MutableUTXODiff, d.ValidOn S → ∃ l', Lists l' (d.applyTo S) ∧
      ∀ n ≥ l'.length, (iterator base fuel).drive (n + 1) ⟨s, d, none, d.toAdd.iterator⟩ = .ok (some l') :=
    fun d hv => ⟨_, lists_remaining hl hv, fun n hn => (enumerates hbase hfuel).drive hn⟩
  refine ⟨_, rfl, hyields d hv, fun d₂ hv₂ => ⟨rfl, ?_⟩⟩
  intro hc hc₂ hdaa
  have hd : d ∈ [d, d₂] := by simp
  have hT := within_applyTo (within_occurs (S := S)) (occurs_add hd)
  obtain ⟨combined, hcombined, hdiff⟩ := withDiff_isDiff hdaa ((isDiff_iff d S).mp ⟨hv, hc⟩)
    ((isDiff_iff d₂ _).mp ⟨hv₂, hc₂⟩) within_occurs hT
    (within_applyTo hT (occurs_add (d := d₂) (by simp)))
  refine ⟨⟨s, combined, none, combined.toAdd.iterator⟩, ?_, ?_⟩
  · simp [iteratorWithDiff, hcombined, pure, Except.pure]
  rw [← hdiff.applyTo_eq]
  exact hyields combined hdiff.valid_canonical.1

theorem iteratorWithDiff_yields_sample :
    ∃ r, iteratorWithDiff (.other (sampleDiff 5 7).toRemove.iterator) (sampleDiff 5 7) = .ok r ∧
      ∃ l', Lists l' ((sampleDiff 5 7).applyTo (sampleSet 5)) ∧
        ∀ n ≥ l'.length, (iterator collectionIterator 2).drive (n + 1) r = .ok (some l') := by
  have hbase : collectionIterator.Enumerates (sampleDiff 5 7).toRemove.iterator [(sampleOutpoint, sampleEntry 5)] :=
    .first rfl rfl (.ended (collectionIterator_ended le_rfl))
  have hl : Lists [(sampleOutpoint, sampleEntry 5)] (sampleSet 5) := by
    refine ⟨by simp, fun o e => ?_⟩
    by_cases ho : o = sampleOutpoint <;> simp [sampleSet, ho, eq_comm]
  have hv := (sample_isDiff 5 7 (by decide)).valid_canonical.1
  obtain ⟨r, hr, hyields, -⟩ := iteratorWithDiff_yields collectionIterator _ _ (sampleSet 5) (sampleDiff 5 7) 2
    hbase hl hv (by decide)
  exact ⟨r, hr, hyields⟩

end Kaspad
