import Kaspad.Mempool.Consistent

/-! # Removing orphans

In an orphan pool whose index is exact, `removeOrphan` always succeeds, its recursion is no deeper
than the number of orphans, and the index stays exact. With the redeemers it takes out every orphan
that a path of spent outputs leads to, and no other.
-/

namespace Kaspad.Mempool
open Lib Lib.Prog GoMap List Relation

namespace OrphansPool

structure Shed (op op' : OrphansPool) : Prop where
  indexed : op'.Indexed
  within : op.Within op'
  size : GoMap.size op'.allOrphans ≤ GoMap.size op.allOrphans

variable {op : OrphansPool}

theorem Shed.refl (h : op.Indexed) : Shed op op :=
  ⟨h, ⟨fun _ _ h => h, fun _ _ h => h⟩, Nat.le_refl _⟩

theorem Shed.trans {op' op'' : OrphansPool} (h : Shed op op') (h' : Shed op' op'') : Shed op op'' :=
  ⟨h'.indexed, ⟨fun id o ho => h.within.1 id o (h'.within.1 id o ho),
    fun p o ho => h.within.2 p o (h'.within.2 p o ho)⟩, Nat.le_trans h'.size h.size⟩

theorem exec_removeInputs (id : DomainTransactionID) (i : ℕ) (inputs : List DomainTransactionInput)
    (op : OrphansPool) (hnodup : (inputs.map (·.previousOutpoint)).Nodup)
    (hpresent : ∀ p ∈ inputs.map (·.previousOutpoint), (op.orphansByPreviousOutpoint.lookup p).isSome) :
    ∃ m, exec (removeInputs id i inputs) op = (.ok (), { op with orphansByPreviousOutpoint := m }) ∧
      ∀ p, m.lookup p = if p ∈ inputs.map (·.previousOutpoint) then none
        else op.orphansByPreviousOutpoint.lookup p := by
  induction inputs generalizing i op with
  | nil => exact ⟨op.orphansByPreviousOutpoint, rfl, by simp⟩
  | cons input inputs ih =>
    obtain ⟨hhead, htail⟩ := nodup_cons.mp hnodup
    have hhere : (op.orphansByPreviousOutpoint.lookup input.previousOutpoint).isSome :=
      hpresent _ (by simp)
    obtain ⟨m, hexec, hm⟩ := ih (i + 1) { op with
      orphansByPreviousOutpoint := op.orphansByPreviousOutpoint.erase input.previousOutpoint } htail
      (by
        intro p hp
        have hne : p ≠ input.previousOutpoint := by
          rintro rfl
          exact hhead hp
        rw [lookup_delete, if_neg hne]
        exact hpresent p (by simp_all))
    refine ⟨m, ?_, fun p => ?_⟩
    · unfold removeInputs
      rw [exec_bind, exec_get]
      simp only [Option.isNone_iff_eq_none, Option.isSome_iff_ne_none.mp hhere, if_false]
      rw [exec_bind, exec_modify]
      exact hexec
    · rw [hm, lookup_delete]
      by_cases hp : p = input.previousOutpoint <;>
        by_cases hm' : p ∈ inputs.map (·.previousOutpoint) <;> simp_all

theorem Indexed.shed_one (h : op.Indexed) {id : DomainTransactionID} {orphan : OrphanTransaction}
    (ho : op.allOrphans.lookup id = some orphan) {m : GoMap DomainOutpoint OrphanTransaction}
    (hm : ∀ p, m.lookup p = if p ∈ orphan.transaction.content.outpoints then none
      else op.orphansByPreviousOutpoint.lookup p) :
    Shed op { op with allOrphans := op.allOrphans.erase id, orphansByPreviousOutpoint := m } := by
  have hall : ∀ {k x}, (op.allOrphans.erase id).lookup k = some x →
      k ≠ id ∧ op.allOrphans.lookup k = some x := of_lookup_delete
  have hby : ∀ {p x}, m.lookup p = some x →
      p ∉ orphan.transaction.content.outpoints ∧ op.orphansByPreviousOutpoint.lookup p = some x := by
    intro p x hx
    rw [hm] at hx
    by_cases hp : p ∈ orphan.transaction.content.outpoints <;> simp_all
  refine ⟨⟨?_, ?_, ?_, ?_⟩, ⟨fun k x hx => (hall hx).2, fun p x hx => (hby hx).2⟩, size_erase_le _ _⟩
  · exact fun hx => h.key (hall hx).2
  · exact fun hx => h.nodup (hall hx).2
  · intro k x hx p hp
    obtain ⟨hk, hx⟩ := hall hx
    have hlisted := h.listed hx p hp
    have hp' : p ∉ orphan.transaction.content.outpoints := by
      intro hp'
      have heq : x = orphan := Option.some.inj (hlisted.symm.trans (h.listed ho p hp'))
      exact hk (by rw [← h.key hx, heq, h.key ho])
    rw [hm, if_neg hp', hlisted]
  intro p x hx
  obtain ⟨hp, hx⟩ := hby hx
  obtain ⟨hx', hpx⟩ := h.owned hx
  refine ⟨?_, hpx⟩
  rw [lookup_delete, if_neg]
  · exact hx'
  intro hid
  rw [hid, ho] at hx'
  exact hp (Option.some.inj hx' ▸ hpx)

/-! ## Orphans below a transaction -/

end OrphansPool

def Funds (a b : DomainTransaction) : Prop := ∃ i < a.outputs.length, a.outpoint i ∈ b.outpoints

namespace OrphansPool

def Has (op : OrphansPool) (tx : DomainTransaction) : Prop :=
  ∃ o, op.allOrphans.lookup tx.id = some o ∧ o.transaction.content = tx

/-- An orphan that spends an output of `a`. -/
def Funded (op : OrphansPool) (a b : DomainTransaction) : Prop := op.Has b ∧ Funds a b

def Below (op : OrphansPool) : DomainTransaction → DomainTransaction → Prop := Relation.TransGen op.Funded

structure Without (op : OrphansPool) (gone : DomainTransaction → Prop) (op' : OrphansPool) : Prop
    extends Shed op op' where
  lookup : ∀ id o, op'.allOrphans.lookup id = some o ↔ op.allOrphans.lookup id = some o ∧ ¬ gone o.transaction.content

section
variable {op op' op'' : OrphansPool} {gone gone' : DomainTransaction → Prop} {a b : DomainTransaction}

theorem Indexed.has (hi : op.Indexed) {id : DomainTransactionID} {o : OrphanTransaction}
    (ho : op.allOrphans.lookup id = some o) : op.Has o.transaction.content :=
  ⟨o, (congrArg op.allOrphans.lookup (hi.key ho)).trans ho, rfl⟩

variable (h : op.Without gone op')
include h

theorem Without.has_iff : op'.Has b ↔ op.Has b ∧ ¬ gone b := by
  constructor
  · rintro ⟨o, ho, rfl⟩
    exact ⟨⟨o, ((h.lookup _ _).mp ho).1, rfl⟩, ((h.lookup _ _).mp ho).2⟩
  rintro ⟨⟨o, ho, rfl⟩, hgone⟩
  exact ⟨o, (h.lookup _ _).mpr ⟨ho, hgone⟩, rfl⟩

theorem Without.funded_iff : op'.Funded a b ↔ op.Funded a b ∧ ¬ gone b := by
  unfold Funded
  rw [h.has_iff]
  tauto

theorem Without.funded_le : op'.Funded ≤ op.Funded :=
  fun _ _ hf => (h.funded_iff.mp hf).1

variable (hclosed : ∀ a b, gone a → op.Funded a b → gone b)
include hclosed

theorem Without.reaches (hb : ¬ gone b) (hab : Relation.ReflTransGen op.Funded a b) :
    ¬ gone a ∧ Relation.ReflTransGen op'.Funded a b := by
  induction hab with
  | refl => exact ⟨hb, .refl⟩
  | tail _ hf ih =>
    obtain ⟨ha, hpath⟩ := ih fun hc => hb (hclosed _ _ hc hf)
    exact ⟨ha, hpath.tail (h.funded_iff.mpr ⟨hf, hb⟩)⟩

theorem Without.below_iff (hb : ¬ gone b) : op'.Below a b ↔ op.Below a b := by
  constructor
  · exact Relation.TransGen.mono h.funded_le a b
  intro hab
  obtain ⟨c, hf, hpath⟩ := Relation.TransGen.head'_iff.mp hab
  obtain ⟨hc, hpath⟩ := h.reaches hclosed hb hpath
  exact .head' (h.funded_iff.mpr ⟨hf, hc⟩) hpath

omit h hclosed

theorem Without.refl (hi : op.Indexed) : op.Without (fun _ => False) op :=
  ⟨.refl hi, by simp⟩

include h in
theorem Without.trans (h' : op'.Without gone' op'') : op.Without (fun b => gone b ∨ gone' b) op'' := by
  refine ⟨h.toShed.trans h'.toShed, fun id o => ?_⟩
  rw [h'.lookup, h.lookup]
  tauto

theorem Without.congr (hi : op.Indexed) (h : op.Without gone op') (hgone : ∀ b, op.Has b → (gone b ↔ gone' b)) :
    op.Without gone' op' := by
  refine ⟨h.toShed, fun id o => ?_⟩
  rw [h.lookup]
  exact and_congr_right fun ho => not_congr (hgone _ (hi.has ho))

end

variable {bound : ℕ} {id : DomainTransactionID} {orphan : OrphanTransaction}

theorem exec_forM_without {α : Type} {xs : List α} {f : α → O Unit} (G : OrphansPool → α → DomainTransaction → Prop)
    (hf : ∀ x ∈ xs, ∀ op : OrphansPool, op.Indexed → GoMap.size op.allOrphans ≤ bound →
      ∃ op', exec (f x) op = (.ok (), op') ∧ op.Without (G op x) op')
    (hstable : ∀ (op op' : OrphansPool) (x y : α), op.Indexed → op.Without (G op x) op' →
      ∀ b, op'.Has b → (G op' y b ↔ G op y b)) (op : OrphansPool) (hi : op.Indexed)
    (hsize : GoMap.size op.allOrphans ≤ bound) :
    ∃ op', exec (xs.forM f) op = (.ok (), op') ∧ op.Without (fun b => ∃ x ∈ xs, G op x b) op' := by
  induction xs generalizing op with
  | nil => exact ⟨op, rfl, (Without.refl hi).congr hi (by simp)⟩
  | cons x xs ih =>
    obtain ⟨op₁, hexec₁, h₁⟩ := hf x (by simp) op hi hsize
    obtain ⟨op₂, hexec₂, h₂⟩ := ih (fun y hy => hf y (by simp [hy])) op₁ h₁.indexed (Nat.le_trans h₁.size hsize)
    refine ⟨op₂, ?_, (h₁.trans h₂).congr hi fun b hb => ?_⟩
    · change exec (f x >>= fun _ => xs.forM f) op = _
      rw [exec_bind, hexec₁]
      exact hexec₂
    by_cases hx : G op x b
    · exact ⟨fun _ => ⟨x, by simp, hx⟩, fun _ => .inl hx⟩
    have hb₁ := h₁.has_iff.mpr ⟨hb, hx⟩
    simp only [hx, false_or, mem_cons, exists_eq_or_imp]
    exact exists_congr fun y => and_congr_right fun _ => hstable op op₁ x y hi h₁ b hb₁

def Taken (op : OrphansPool) (id : DomainTransactionID) (removeRedeemers : Bool) (b : DomainTransaction) : Prop :=
  ∃ o, op.allOrphans.lookup id = some o ∧
    (b = o.transaction.content ∨ removeRedeemers = true ∧ op.Below o.transaction.content b)

def TakenAt (op : OrphansPool) (tx : DomainTransaction) (i : ℕ) (b : DomainTransaction) : Prop :=
  ∃ c, op.Has c ∧ tx.outpoint i ∈ c.outpoints ∧ Relation.ReflTransGen op.Funded c b

variable {op : OrphansPool} {tx b : DomainTransaction}

theorem Indexed.takenAt_iff (hi : op.Indexed) {i : ℕ} :
    op.TakenAt tx i b ↔ ∃ o, op.orphansByPreviousOutpoint.lookup (tx.outpoint i) = some o ∧ op.Taken o.id true b := by
  constructor
  · rintro ⟨c, ⟨o, ho, rfl⟩, hspends, hpath⟩
    refine ⟨o, hi.listed ho _ hspends, o, ho, ?_⟩
    exact (reflTransGen_iff_eq_or_transGen.mp hpath).imp_right fun hb => ⟨rfl, hb⟩
  rintro ⟨o, hlookup, o', ho', hb⟩
  obtain ⟨ho, hspends⟩ := hi.owned hlookup
  cases ho.symm.trans ho'
  exact ⟨_, hi.has ho, hspends, reflTransGen_iff_eq_or_transGen.mpr (hb.imp_right And.right)⟩

variable {op' : OrphansPool}

theorem Without.takenAt_iff {i j : ℕ} (h : op.Without (op.TakenAt tx i) op') (hb : op'.Has b) :
    op'.TakenAt tx j b ↔ op.TakenAt tx j b := by
  have hclosed : ∀ a b, op.TakenAt tx i a → op.Funded a b → op.TakenAt tx i b := by
    rintro a b ⟨c, hc, hspends, hpath⟩ hf
    exact ⟨c, hc, hspends, hpath.tail hf⟩
  constructor
  · rintro ⟨c, hc, hspends, hpath⟩
    exact ⟨c, (h.has_iff.mp hc).1, hspends, Relation.ReflTransGen.mono h.funded_le c b hpath⟩
  rintro ⟨c, hc, hspends, hpath⟩
  obtain ⟨hkept, hpath⟩ := h.reaches hclosed (h.has_iff.mp hb).2 hpath
  exact ⟨c, h.has_iff.mpr ⟨hc, hkept⟩, hspends, hpath⟩

theorem exec_forRedeemersOf {remove : DomainTransactionID → O Unit}
    (hremove : ∀ id, ∀ op : OrphansPool, op.Indexed → GoMap.size op.allOrphans ≤ bound →
      ∃ op', exec (remove id) op = (.ok (), op') ∧ op.Without (op.Taken id true) op')
    (tx : DomainTransaction) (op : OrphansPool) (hi : op.Indexed) (hsize : GoMap.size op.allOrphans ≤ bound) :
    ∃ op', exec (forRedeemersOf remove tx) op = (.ok (), op') ∧ op.Without (op.Below tx) op' := by
  have hloop : ∃ op', exec (forRedeemersOf remove tx) op = (.ok (), op') ∧
      op.Without (fun b => ∃ i ∈ List.range tx.outputs.length, op.TakenAt tx i b) op' := by
    refine exec_forM_without (fun op => op.TakenAt tx) (fun i _ op hi hsize => ?_)
      (fun _ _ _ _ _ h _ => h.takenAt_iff) op hi hsize
    rw [exec_bind, exec_get]
    dsimp only
    split
    · rename_i orphan horphan
      obtain ⟨op', hexec, h⟩ := hremove orphan.id op hi hsize
      refine ⟨op', hexec, h.congr hi fun b _ => ?_⟩
      rw [hi.takenAt_iff]
      exact ⟨fun hb => ⟨orphan, horphan, hb⟩, fun ⟨o, ho, hb⟩ => Option.some.inj (horphan.symm.trans ho) ▸ hb⟩
    · rename_i hnone
      refine ⟨op, rfl, (Without.refl hi).congr hi fun b _ => ?_⟩
      rw [hi.takenAt_iff]
      simp [hnone]
  obtain ⟨op', hexec, h⟩ := hloop
  refine ⟨op', hexec, h.congr hi fun b _ => ⟨?_, fun hb => ?_⟩⟩
  · rintro ⟨i, hi, c, hc, hspends, hb⟩
    exact .head' ⟨hc, i, mem_range.mp hi, hspends⟩ hb
  obtain ⟨c, ⟨hc, i, hi, hspends⟩, hb⟩ := Relation.TransGen.head'_iff.mp hb
  exact ⟨i, mem_range.mpr hi, c, hc, hspends, hb⟩

structure Removed (id : DomainTransactionID) (op op' : OrphansPool) : Prop extends Shed op op' where
  gone : op'.allOrphans.lookup id = none
  smaller : (op.allOrphans.lookup id).isSome → GoMap.size op'.allOrphans < GoMap.size op.allOrphans

theorem Indexed.without_one (hi : op.Indexed) (ho : op.allOrphans.lookup id = some orphan)
    {m : GoMap DomainOutpoint OrphanTransaction}
    (hm : ∀ p, m.lookup p = if p ∈ orphan.transaction.content.outpoints then none
      else op.orphansByPreviousOutpoint.lookup p) : op.Without (fun b => b = orphan.transaction.content)
      { op with allOrphans := op.allOrphans.erase id, orphansByPreviousOutpoint := m } := by
  refine ⟨hi.shed_one ho hm, fun id' o => ?_⟩
  rw [lookup_delete]
  by_cases hid : id' = id
  · rw [if_pos hid, hid, ho]
    exact ⟨nofun, fun ⟨heq, hne⟩ => absurd (congrArg (·.transaction.content) (Option.some.inj heq)).symm hne⟩
  rw [if_neg hid]
  refine ⟨fun h => ⟨h, fun hcontent => hid ?_⟩, And.left⟩
  rw [← hi.key h, ← hi.key ho, OrphanTransaction.id, OrphanTransaction.id, hcontent]

theorem below_of_shed_one (h : op.Without (fun b => b = tx) op') (hab : op.Below tx b) : b = tx ∨ op'.Below tx b := by
  induction hab with
  | single hf => exact or_iff_not_imp_left.mpr fun hb => .single (h.funded_iff.mpr ⟨hf, hb⟩)
  | @tail c b _ hf ih =>
    refine or_iff_not_imp_left.mpr fun hb => ?_
    rcases ih with rfl | hc
    · exact .single (h.funded_iff.mpr ⟨hf, hb⟩)
    · exact .tail hc (h.funded_iff.mpr ⟨hf, hb⟩)

theorem Indexed.removed_absent (hi : op.Indexed) (hnone : op.allOrphans.lookup id = none)
    (removeRedeemers : Bool) : Removed id op op ∧ op.Without (op.Taken id removeRedeemers) op :=
  ⟨⟨.refl hi, hnone, by simp [hnone]⟩, (Without.refl hi).congr hi fun b _ => by simp [Taken, hnone]⟩

/-- A removal takes the orphan and, if asked, all that it funds, however deep. -/
theorem exec_removeOrphanBounded (depth : ℕ) (id : DomainTransactionID) (removeRedeemers : Bool)
    (op : OrphansPool) (hi : op.Indexed) (hsize : GoMap.size op.allOrphans ≤ depth) :
    ∃ op', exec (removeOrphanBounded depth id removeRedeemers) op = (.ok (), op') ∧
      Removed id op op' ∧ op.Without (op.Taken id removeRedeemers) op' := by
  induction depth generalizing id removeRedeemers op with
  | zero =>
    have hnone : op.allOrphans.lookup id = none := by
      cases h : op.allOrphans.lookup id with
      | none => rfl
      | some orphan =>
        have := size_erase h
        omega
    refine ⟨op, ?_, hi.removed_absent hnone removeRedeemers⟩
    unfold removeOrphanBounded
    rw [exec_bind, exec_get]
    simp [hnone]
  | succ depth ih =>
    unfold removeOrphanBounded
    rw [exec_bind, exec_get]
    dsimp only
    split
    · rename_i hnone
      exact ⟨op, rfl, hi.removed_absent hnone removeRedeemers⟩
    rename_i orphan ho
    have herase := size_erase ho
    obtain ⟨m, hexec, hm⟩ := exec_removeInputs id 0 orphan.transaction.content.inputs
      { op with allOrphans := op.allOrphans.erase id } (hi.nodup ho)
      (fun p hp => by simp [hi.listed ho p hp])
    rw [exec_bind, exec_modify]
    dsimp only
    rw [exec_bind, hexec]
    have hgone : (op.allOrphans.erase id).lookup id = none := by simp
    have hone := hi.without_one ho hm
    -- The redeemers go with the recursion, one level down.
    obtain ⟨op', hexec', h⟩ := exec_forRedeemersOf
      (fun redeemer op hi hsize => (ih redeemer true op hi hsize).imp fun _ h => ⟨h.1, h.2.2⟩)
      orphan.transaction.content
      { op with allOrphans := op.allOrphans.erase id, orphansByPreviousOutpoint := m }
      hone.indexed (by dsimp only; omega)
    have hsize' := h.size
    dsimp only at hsize'
    cases removeRedeemers with
    | false =>
      refine ⟨_, rfl, ⟨hone.toShed, hgone, fun _ => by dsimp only; omega⟩, hone.congr hi fun b _ => ?_⟩
      simp [Taken, ho]
    | true =>
      have hboth := hone.trans h
      refine ⟨op', hexec', ⟨hboth.toShed, ?_, fun _ => by omega⟩, hboth.congr hi fun b _ => ?_⟩
      · refine Option.eq_none_iff_forall_ne_some.mpr fun o ho' => ?_
        obtain ⟨hlookup, hkept⟩ := (hboth.lookup id o).mp ho'
        rw [ho, Option.some.injEq] at hlookup
        exact hkept (.inl (hlookup ▸ rfl))
      simp only [Taken, ho, Option.some.injEq, exists_eq_left', true_and]
      refine ⟨fun hb => hb.imp_right fun hb => Relation.TransGen.mono hone.funded_le _ _ hb, ?_⟩
      rintro (hb | hb)
      · exact .inl hb
      · exact below_of_shed_one hone hb

theorem exec_removeOrphan (id : DomainTransactionID) (removeRedeemers : Bool) (op : OrphansPool) (hi : op.Indexed) :
    ∃ op', exec (removeOrphan id removeRedeemers) op = (.ok (), op') ∧ Removed id op op' ∧
      op.Without (op.Taken id removeRedeemers) op' := by
  unfold removeOrphan
  rw [exec_bind, exec_get]
  exact exec_removeOrphanBounded _ id removeRedeemers op hi (Nat.le_refl _)

theorem exec_removeRedeemersOf (tx : DomainTransaction) (op : OrphansPool) (hi : op.Indexed) :
    ∃ op', exec (removeRedeemersOf tx) op = (.ok (), op') ∧ op.Without (op.Below tx) op' :=
  exec_forRedeemersOf (fun id op hi _ => (exec_removeOrphan id true op hi).imp
    fun _ h => ⟨h.1, h.2.2⟩) tx op hi (Nat.le_refl _)

theorem Indexed.insertOrphan (h : op.Indexed) (hnew : op.allOrphans.lookup orphan.id = none)
    (hnodup : orphan.transaction.content.outpoints.Nodup)
    (hfree : ∀ p ∈ orphan.transaction.content.outpoints, op.orphansByPreviousOutpoint.lookup p = none) :
    (op.insertOrphan orphan).Indexed := by
  refine ⟨?_, ?_, ?_, ?_⟩
  · intro k x hx
    obtain ⟨rfl, rfl⟩ | hx := of_lookup_set hx
    · rfl
    · exact h.key hx
  · intro k x hx
    obtain ⟨-, rfl⟩ | hx := of_lookup_set hx
    · exact hnodup
    · exact h.nodup hx
  · intro k x hx p hp
    rw [lookup_insertOrphan]
    obtain ⟨-, rfl⟩ | hx := of_lookup_set hx
    · rw [if_pos hp]
    have hlisted := h.listed hx p hp
    rw [if_neg, hlisted]
    intro hp'
    rw [hfree p hp'] at hlisted
    cases hlisted
  intro p x hx
  have hall : (op.insertOrphan orphan).allOrphans.lookup x.id =
      if x.id = orphan.id then some orphan else op.allOrphans.lookup x.id := lookup_set _ _ _ _
  rw [hall]
  obtain ⟨hp, rfl⟩ | hx := of_lookup_insertOrphan hx
  · exact ⟨if_pos rfl, hp⟩
  obtain ⟨hx', hpx⟩ := h.owned hx
  refine ⟨?_, hpx⟩
  rw [if_neg, hx']
  intro hid
  rw [hid, hnew] at hx'
  cases hx'

end OrphansPool
end Kaspad.Mempool
