import Kaspad.Mempool.OrphanRemoval
import Kaspad.Mempool.Redeemers

/-! # What a removal removes

`removeTransaction` takes a transaction out of one of the pools, alone or with its redeemers. Redeemers are
found through the lists of chained transactions in the pool, and through the spent outputs among the orphans;
for an orphan the flag is not read.
-/

namespace Kaspad.Mempool
open Lib Lib.Prog Option OrphansPool

/-! ## What is to be removed -/

/-- The transaction is in the pool or an orphan. -/
def State.Has (s : State) (tx : DomainTransaction) : Prop :=
  (∃ t, s.transactionsPool.allTransactions.lookup tx.id = some t ∧ t.transaction.content = tx) ∨ s.orphansPool.Has tx

def State.Funded (s : State) (a b : DomainTransaction) : Prop := s.Has b ∧ Funds a b

/-- The transaction and all that spends it, directly or not, in either pool. -/
def State.Family (s : State) (id x : DomainTransactionID) : Prop :=
  x = id ∨ ∃ a b, s.Has a ∧ a.id = id ∧ Relation.TransGen s.Funded a b ∧ b.id = x

/-- Exactly these have left the two pools. -/
structure State.Removes (s : State) (ids : DomainTransactionID → Prop) (s' : State) : Prop where
  pool : ∀ id t, s'.transactionsPool.allTransactions.lookup id = some t ↔
    s.transactionsPool.allTransactions.lookup id = some t ∧ ¬ ids id
  orphans : ∀ id o, s'.orphansPool.allOrphans.lookup id = some o ↔
    s.orphansPool.allOrphans.lookup id = some o ∧ ¬ ids id

def State.Present (s : State) (id : DomainTransactionID) : Prop :=
  (s.transactionsPool.allTransactions.lookup id).isSome ∨ (s.orphansPool.allOrphans.lookup id).isSome

/-- The lists of chained transactions lead from `t` to `r`. -/
def State.Led (s : State) (t r : MempoolTransaction) : Prop :=
  r = t ∨ StackWalk.Below s.transactionsPool.chained t r

/-- What `removeTransaction` comes to with the flag set. -/
def State.Reached (s : State) (id x : DomainTransactionID) : Prop :=
  (∃ b, s.orphansPool.Taken id true b ∧ b.id = x) ∨ (s.orphansPool.allOrphans.lookup id = none ∧
      ∃ t, s.transactionsPool.allTransactions.lookup id = some t ∧ ∃ r, s.Led t r ∧
        ((s.transactionsPool.allTransactions.lookup x).isSome ∧ r.id = x ∨
          ∃ b, s.orphansPool.Below r.transaction.content b ∧ b.id = x))

variable {S : Setup} {V : TransactionFacts} {s s' : State} {w : World} {ids ids' : DomainTransactionID → Prop}

theorem State.Removes.iff (h : s.Removes ids s') : s.Removes ids' s' ↔ ∀ id, s.Present id → (ids id ↔ ids' id) := by
  constructor
  · rintro h' id (hin | hin)
    · obtain ⟨t, ht⟩ := isSome_iff_exists.mp hin
      have := (h.pool id t).symm.trans (h'.pool id t)
      simpa [ht, not_iff_not] using this
    obtain ⟨o, ho⟩ := isSome_iff_exists.mp hin
    have := (h.orphans id o).symm.trans (h'.orphans id o)
    simpa [ho, not_iff_not] using this
  · intro heq
    refine ⟨fun id t => (h.pool id t).trans ?_, fun id o => (h.orphans id o).trans ?_⟩
    · exact and_congr_right fun ht => not_congr (heq id (.inl (by simp [ht])))
    · exact and_congr_right fun ho => not_congr (heq id (.inr (by simp [ho])))

/-! ## Links and families -/

/-- The lists of chained transactions lead to the family: every pool transaction of it is listed under another
member, and no orphan outside of it spends an output of a listed transaction that left the pool. -/
structure State.FamilyLinked (s : State) (id : DomainTransactionID) : Prop where
  listed : ∀ x ≠ id, s.Family id x → (s.transactionsPool.allTransactions.lookup x).isSome → ∃ y l, s.Family id y ∧
    s.transactionsPool.chainedTransactionsByParentID.lookup y = some l ∧ ∃ z ∈ l, z.id = x
  stale : ∀ y l z b, s.Family id y → s.transactionsPool.chainedTransactionsByParentID.lookup y = some l → z ∈ l →
    s.transactionsPool.allTransactions.lookup z.id = none → s.orphansPool.Funded z.transaction.content b →
    s.Family id b.id

section Links

variable {a a' b : DomainTransaction} {t r z : MempoolTransaction} {id y : DomainTransactionID}
  {l : List MempoolTransaction}

theorem TransactionFacts.Admits.funds (ha : V.Admits a) (ha' : V.Admits a') (hid : a.id = a'.id) (h : Funds a b) :
    Funds a' b := by
  obtain ⟨i, hi, hspends⟩ := h
  have hout : a.outpoint i = a'.outpoint i := congrArg (DomainOutpoint.mk · i) hid
  refine ⟨i, ?_, hout ▸ hspends⟩
  have hvalue := ha'.pays i
  rw [← hout, ha.pays i, List.getElem?_eq_getElem hi] at hvalue
  by_contra hle
  rw [List.getElem?_eq_none (Nat.not_lt.mp hle)] at hvalue
  cases hvalue

theorem State.Led.tail (hled : s.Led t r) (h : z ∈ s.transactionsPool.chained r) : s.Led t z :=
  .inr (hled.elim (fun heq => .single (heq ▸ h)) fun hbelow => hbelow.tail h)

theorem OrphansPool.has_of_below {op : OrphansPool} (h : op.Below a b) : op.Has b := by
  obtain ⟨c, -, hf⟩ := Relation.TransGen.tail'_iff.mp h
  exact hf.1

variable (hs : s.Consistent S V)
include hs

theorem State.Consistent.has_of_taken {removeRedeemers : Bool}
    (h : s.orphansPool.Taken id removeRedeemers b) : s.orphansPool.Has b := by
  obtain ⟨o, ho, rfl | ⟨-, hb⟩⟩ := h
  · exact hs.orphans.has ho
  · exact has_of_below hb

theorem State.Consistent.not_pool (h : s.orphansPool.Has b) :
    ¬ (s.transactionsPool.allTransactions.lookup b.id).isSome := by
  obtain ⟨o, ho, -⟩ := h
  simp [hs.apart ho]

theorem State.Consistent.has_unique (ha : s.Has a) (ha' : s.Has a') (hid : a.id = a'.id) : a = a' := by
  rcases ha with ⟨t, ht, rfl⟩ | ⟨o, ho, rfl⟩ <;> rcases ha' with ⟨t', ht', rfl⟩ | ⟨o', ho', rfl⟩
  · rw [hid, ht', Option.some.injEq] at ht
    rw [ht]
  · rw [hid, hs.apart ho'] at ht
    cases ht
  · rw [← hid, hs.apart ho] at ht'
    cases ht'
  · rw [hid, ho', Option.some.injEq] at ho
    rw [ho]

theorem State.Consistent.has_pool (ht : s.transactionsPool.allTransactions.lookup id = some t) :
    s.Has t.transaction.content :=
  .inl ⟨t, (congrArg s.transactionsPool.allTransactions.lookup (hs.key ht)).trans ht, rfl⟩

theorem State.Consistent.family_tail (hfamily : s.Family id a.id) (ha : s.Has a)
    (h : Relation.TransGen s.Funded a b) : s.Family id b.id := by
  obtain hid | ⟨root, a', hroot, hid, hpath, heq⟩ := hfamily
  · exact .inr ⟨a, b, ha, hid, h, rfl⟩
  obtain ⟨c, -, hlast⟩ := Relation.TransGen.tail'_iff.mp hpath
  obtain rfl := hs.has_unique hlast.1 ha heq
  exact .inr ⟨root, b, hroot, hid, hpath.trans h, rfl⟩

theorem State.Consistent.family_of_chained (hfamily : s.Family id y)
    (hl : s.transactionsPool.chainedTransactionsByParentID.lookup y = some l) (hr : r ∈ l)
    (hin : (s.transactionsPool.allTransactions.lookup r.id).isSome) : s.Family id r.id := by
  obtain ⟨t, ht⟩ := isSome_iff_exists.mp hin
  obtain ⟨hpaid, hy, o, ho, rfl⟩ := hs.chained hl hr
  obtain ⟨x, hx⟩ := isSome_iff_exists.mp hy
  have hout : x.transaction.content.outpoint o.index = o := congrArg (DomainOutpoint.mk · _) (hs.key hx)
  -- The output exists, and the pool has the same transaction as the list.
  have hfunds : Funds x.transaction.content t.transaction.content := by
    refine ⟨o.index, ?_, ?_⟩
    · have hexists := hpaid.exist o ho
      rw [← hout, (hs.paid hx).admitted.pays] at hexists
      by_contra hle
      rw [List.getElem?_eq_none (Nat.not_lt.mp hle)] at hexists
      cases hexists
    rw [hout, (hs.paid ht).admitted.outpoints, show t.transaction.content.id = r.id from hs.key ht]
    exact hpaid.admitted.outpoints ▸ ho
  rw [← show x.transaction.content.id = _ from hs.key hx] at hfamily
  have hmember := hs.family_tail hfamily (hs.has_pool hx) (.single ⟨hs.has_pool ht, hfunds⟩)
  rwa [show t.transaction.content.id = r.id from hs.key ht] at hmember

theorem State.Consistent.family_of_led (ht : s.transactionsPool.allTransactions.lookup id = some t)
    (hled : s.Led t r) (hr : (s.transactionsPool.allTransactions.lookup r.id).isSome) : s.Family id r.id := by
  obtain rfl | hbelow := hled
  · exact .inl (hs.key ht)
  induction hbelow with
  | single h =>
    obtain ⟨l, hl, hr'⟩ := TransactionsPool.mem_chained.mp h
    exact hs.family_of_chained (.inl (hs.key ht)) hl hr' hr
  | tail _ h ih =>
    obtain ⟨l, hl, hr'⟩ := TransactionsPool.mem_chained.mp h
    exact hs.family_of_chained (ih (hs.chained hl hr').2.1) hl hr' hr

theorem State.Consistent.led_of_family (hlinked : s.FamilyLinked id) {x : DomainTransactionID}
    (hfamily : s.Family id x) (hin : (s.transactionsPool.allTransactions.lookup x).isSome) :
    ∃ t r, s.transactionsPool.allTransactions.lookup id = some t ∧ s.Led t r ∧ r.id = x := by
  -- A listed transaction is deeper than the one it is listed under.
  induction hd : V.depth x using Nat.strong_induction_on generalizing x with
  | _ d ih =>
    by_cases hx : x = id
    · obtain ⟨t, ht⟩ := isSome_iff_exists.mp hin
      exact ⟨t, t, hx ▸ ht, .inl rfl, hs.key ht⟩
    obtain ⟨y, l, hy, hl, z, hz, rfl⟩ := hlinked.listed x hx hfamily hin
    have hdepth : V.depth y < V.depth z.id := hs.depth_lt (by rwa [hl, getD_some])
    obtain ⟨t, r, ht, hled, rfl⟩ := ih _ (hd ▸ hdepth) hy (hs.chained hl hz).2.1 rfl
    exact ⟨t, z, ht, hled.tail (TransactionsPool.mem_chained.mpr ⟨l, hl, hz⟩), rfl⟩

theorem State.Consistent.paid_of_led (ht : s.transactionsPool.allTransactions.lookup id = some t)
    (hled : s.Led t r) : s.heap.Paid V r.transaction := by
  obtain rfl | hbelow := hled
  · exact hs.paid ht
  obtain ⟨z, -, h⟩ := Relation.TransGen.tail'_iff.mp hbelow
  obtain ⟨l, hl, hr⟩ := TransactionsPool.mem_chained.mp h
  exact (hs.chained hl hr).1

theorem State.Consistent.below_of_family (hlinked : s.FamilyLinked id) (ha : s.Has a) (hid : a.id = id)
    (hpath : Relation.TransGen s.Funded a b) (hb : s.orphansPool.Has b) :
    (∃ o, s.orphansPool.allOrphans.lookup id = some o ∧ s.orphansPool.Below o.transaction.content b) ∨
      ∃ t r, s.transactionsPool.allTransactions.lookup id = some t ∧ s.Led t r ∧
        s.orphansPool.Below r.transaction.content b := by
  induction hpath with
  | single h =>
    obtain ⟨t, ht, rfl⟩ | ⟨o, ho, rfl⟩ := ha
    · exact .inr ⟨t, t, hid ▸ ht, .inl rfl, .single ⟨hb, h.2⟩⟩
    · exact .inl ⟨o, hid ▸ ho, .single ⟨hb, h.2⟩⟩
  | @tail c b hpath h ih =>
    obtain ⟨_, -, hlast⟩ := Relation.TransGen.tail'_iff.mp hpath
    obtain ⟨t', ht', rfl⟩ | hc := hlast.1
    · obtain ⟨t, r, ht, hled, hr⟩ := hs.led_of_family hlinked (.inr ⟨a, _, ha, hid, hpath, rfl⟩) (isSome_of_mem ht')
      refine .inr ⟨t, r, ht, hled, .single ⟨hb, ?_⟩⟩
      exact (hs.paid ht').admitted.funds (hs.paid_of_led ht hled).admitted hr.symm h.2
    · exact (ih hc).imp (fun ⟨o, ho, hbelow⟩ => ⟨o, ho, hbelow.tail ⟨hb, h.2⟩⟩)
        fun ⟨t, r, ht, hled, hbelow⟩ => ⟨t, r, ht, hled, hbelow.tail ⟨hb, h.2⟩⟩

theorem State.Consistent.not_orphan (ht : s.transactionsPool.allTransactions.lookup id = some t) :
    s.orphansPool.allOrphans.lookup id = none := by
  cases ho : s.orphansPool.allOrphans.lookup id with
  | none => rfl
  | some o => exact absurd (hs.apart ho) (by simp [ht])

theorem State.Consistent.reached_of_family (hlinked : s.FamilyLinked id) {x : DomainTransactionID}
    (hx : s.Present x) (hfamily : s.Family id x) : s.Reached id x := by
  obtain hin | hin := hx
  · obtain ⟨t, r, ht, hled, hr⟩ := hs.led_of_family hlinked hfamily hin
    exact .inr ⟨hs.not_orphan ht, t, ht, r, hled, .inl ⟨hin, hr⟩⟩
  obtain ⟨o, ho⟩ := isSome_iff_exists.mp hin
  obtain rfl | ⟨a, b, ha, hid, hpath, rfl⟩ := hfamily
  · exact .inl ⟨_, ⟨o, ho, .inl rfl⟩, hs.orphans.key ho⟩
  have hb : s.orphansPool.Has b := by
    obtain ⟨_, -, ⟨t, ht, -⟩ | hb, -⟩ := Relation.TransGen.tail'_iff.mp hpath
    · exact absurd (hs.apart ho) (by simp [ht])
    · exact hb
  obtain ⟨o', ho', hbelow⟩ | ⟨t, r, ht, hled, hbelow⟩ := hs.below_of_family hlinked ha hid hpath hb
  · exact .inl ⟨b, ⟨o', ho', .inr ⟨rfl, hbelow⟩⟩, rfl⟩
  · exact .inr ⟨hs.not_orphan ht, t, ht, r, hled, .inr ⟨b, hbelow, rfl⟩⟩

theorem State.Consistent.family_of_reached (hlinked : s.FamilyLinked id) {x : DomainTransactionID}
    (hreached : s.Reached id x) : s.Family id x := by
  have hmono : s.orphansPool.Funded ≤ s.Funded := fun _ _ h => ⟨.inr h.1, h.2⟩
  obtain ⟨b, ⟨o, ho, rfl | ⟨-, hb⟩⟩, rfl⟩ | ⟨-, t, ht, r, hled, ⟨hin, rfl⟩ | ⟨b, hb, rfl⟩⟩ := hreached
  · exact .inl (hs.orphans.key ho)
  · exact hs.family_tail (.inl (hs.orphans.key ho)) (.inr (hs.orphans.has ho)) (Relation.TransGen.mono hmono _ _ hb)
  · exact hs.family_of_led ht hled hin
  obtain ⟨c, hc, hrest⟩ := Relation.TransGen.head'_iff.mp hb
  -- The first orphan spends an output of a member, or of a listed transaction that left the pool.
  have hfirst : s.Family id c.id := by
    cases hr : s.transactionsPool.allTransactions.lookup r.id with
    | some r' =>
      have hid : r.id = r'.id := (hs.key hr).symm
      have hmember := hs.family_of_led ht hled (isSome_of_mem hr)
      rw [hid] at hmember
      refine hs.family_tail hmember (hs.has_pool hr) (.single ⟨.inr hc.1, ?_⟩)
      exact (hs.paid_of_led ht hled).admitted.funds (hs.paid hr).admitted hid hc.2
    | none =>
      obtain rfl | hbelow := hled
      · rw [hs.key ht, ht] at hr
        cases hr
      obtain ⟨z, hz, h⟩ := Relation.TransGen.tail'_iff.mp hbelow
      obtain ⟨l, hl, hrl⟩ := TransactionsPool.mem_chained.mp h
      have hzled : s.Led t z := (Relation.reflTransGen_iff_eq_or_transGen.mp hz)
      exact hlinked.stale z.id l r c (hs.family_of_led ht hzled (hs.chained hl hrl).2.1) hl hrl hr hc
  obtain rfl | hrest := Relation.reflTransGen_iff_eq_or_transGen.mp hrest
  · exact hfirst
  · exact hs.family_tail hfirst (.inr hc.1) (Relation.TransGen.mono hmono _ _ hrest)

theorem State.Consistent.reached_eq_family_iff (id : DomainTransactionID) :
    (∀ x, s.Present x → (s.Reached id x ↔ s.Family id x)) ↔ s.FamilyLinked id := by
  refine ⟨fun h => ⟨fun x hx hfamily hin => ?_, fun y l z b hfamily hl hz _ hb => ?_⟩, fun h x hx =>
    ⟨hs.family_of_reached h, hs.reached_of_family h hx⟩⟩
  · obtain ⟨b, htaken, rfl⟩ | ⟨-, t, ht, r, hled, ⟨-, rfl⟩ | ⟨b, hb, rfl⟩⟩ := (h x (.inl hin)).mpr hfamily
    · exact absurd hin (hs.not_pool (hs.has_of_taken htaken))
    · obtain rfl | hbelow := hled
      · exact absurd (hs.key ht) hx
      obtain ⟨z, hz, hr⟩ := Relation.TransGen.tail'_iff.mp hbelow
      obtain ⟨l, hl, hrl⟩ := TransactionsPool.mem_chained.mp hr
      exact ⟨z.id, l, hs.family_of_led ht (Relation.reflTransGen_iff_eq_or_transGen.mp hz) (hs.chained hl hrl).2.1,
        hl, r, hrl, rfl⟩
    · exact absurd hin (hs.not_pool (has_of_below hb))
  -- The member is reached, so the links lead on to the listed transaction and to the orphan.
  have hy := (hs.chained hl hz).2.1
  obtain ⟨b', htaken, rfl⟩ | ⟨hnone, t, ht, r, hled, ⟨-, rfl⟩ | ⟨b', hb', rfl⟩⟩ := (h y (.inl hy)).mpr hfamily
  · exact absurd hy (hs.not_pool (hs.has_of_taken htaken))
  · obtain ⟨o, ho, -⟩ := hb.1
    exact (h b.id (.inr (isSome_of_mem ho))).mp (.inr ⟨hnone, t, ht, z,
      hled.tail (TransactionsPool.mem_chained.mpr ⟨l, hl, hz⟩), .inr ⟨b, .single hb, rfl⟩⟩)
  · exact absurd hy (hs.not_pool (has_of_below hb'))

end Links

/-! ## The pool -/

variable (ts : List MempoolTransaction) (hs : w.state.Consistent S V)
include hs in
theorem exec_forM_removeTransactionFromSets (hts : ∀ t ∈ ts, w.state.heap.Paid V t.transaction) :
    ∃ w', exec (ts.forM (removeTransactionFromSets S true)) w = (.ok (), w') ∧
      (∀ id x, w'.state.transactionsPool.allTransactions.lookup id = some x ↔
        w.state.transactionsPool.allTransactions.lookup id = some x ∧ ∀ t ∈ ts, t.id ≠ id) ∧
      exec (ts.forM fun t => OrphansPool.removeRedeemersOf t.transaction.content) w.state.orphansPool =
        (.ok (), w'.state.orphansPool) := by
  induction ts generalizing w with
  | nil => exact ⟨w, rfl, by simp, rfl⟩
  | cons t ts ih =>
    have ht := hts t (by simp)
    have hcons := (hs.unregistered ht).2
    obtain ⟨op, hexec, hop⟩ := exec_removeRedeemersOf t.transaction.content w.state.orphansPool hs.orphans
    let w₁ : World := { w with
      state := { w.state.unregistered S t with orphansPool := op }
      indexWrites := ⟨t, w.state⟩ :: w.indexWrites }
    have hfirst : exec (removeTransactionFromSets S true t) w = (.ok (), w₁) := by
      rw [exec_removeTransactionFromSets hs ht]
      unfold updateOrphansAfterTransactionRemoved
      rw [if_pos rfl, exec_onOrphans]
      have horphans : (w.state.unregistered S t).orphansPool = w.state.orphansPool := rfl
      simp only [horphans, hexec]
      rfl
    obtain ⟨w', hrest, hpool, horphans⟩ := ih (w := w₁) (hcons.shrunk_orphans hop.toShed).consistent
      (fun x hx => hts x (by simp [hx]))
    refine ⟨w', ?_, fun id x => ?_, ?_⟩
    · change exec (removeTransactionFromSets S true t >>= fun _ => ts.forM _) w = _
      rw [exec_bind_ok hfirst]
      exact hrest
    · have hlookup : w₁.state.transactionsPool.allTransactions.lookup id =
          if id = t.id then none else w.state.transactionsPool.allTransactions.lookup id :=
        lookup_unregistered S id
      rw [hpool, hlookup]
      by_cases hid : id = t.id
      · simp [hid]
      · simp [hid, Ne.symm hid]
    · change exec (OrphansPool.removeRedeemersOf t.transaction.content >>= fun _ => ts.forM _) _ = _
      rw [exec_bind_ok hexec]
      exact horphans

theorem exec_forM_removeRedeemersOf (op : OrphansPool) (hi : op.Indexed) :
    ∃ op', exec (ts.forM fun t => OrphansPool.removeRedeemersOf t.transaction.content) op = (.ok (), op') ∧
      op.Without (fun b => ∃ t ∈ ts, op.Below t.transaction.content b) op' := by
  refine exec_forM_without (fun op (t : MempoolTransaction) => op.Below t.transaction.content)
    (fun t _ op hi _ => exec_removeRedeemersOf t.transaction.content op hi) ?_ op hi le_rfl
  intro op op' x y _ h b hb
  exact h.below_iff (fun _ _ ha hf => ha.tail hf) (h.has_iff.mp hb).2

theorem State.Consistent.removes (hs : s.Consistent S V) (ids : DomainTransactionID → Prop) (s' : State)
    {gone : DomainTransaction → Prop} (hpool : ∀ id t, s'.transactionsPool.allTransactions.lookup id = some t ↔
      s.transactionsPool.allTransactions.lookup id = some t ∧ ¬ ids id)
    (horphans : s.orphansPool.Without gone s'.orphansPool) (hgone : ∀ b, gone b → s.orphansPool.Has b) :
    s.Removes (fun x => (s.transactionsPool.allTransactions.lookup x).isSome ∧ ids x ∨
      ∃ b, gone b ∧ b.id = x) s' := by
  refine ⟨fun id t => (hpool id t).trans (and_congr_right fun ht => not_congr ?_),
    fun id o => (horphans.lookup id o).trans (and_congr_right fun ho => not_congr ?_)⟩
  · refine ⟨fun h => .inl ⟨by simp [ht], h⟩, ?_⟩
    rintro (⟨-, h⟩ | ⟨b, hb, rfl⟩)
    · exact h
    exact absurd (isSome_of_mem ht) (hs.not_pool (hgone b hb))
  refine ⟨fun h => .inr ⟨_, h, hs.orphans.key ho⟩, ?_⟩
  rintro (⟨hin, -⟩ | ⟨b, hb, rfl⟩)
  · exact absurd (hs.apart ho) (isSome_iff_ne_none.mp hin)
  obtain ⟨o', ho', rfl⟩ := hgone b hb
  exact Option.some.inj (ho'.symm.trans ho) ▸ hb

variable {id : DomainTransactionID} {removeRedeemers : Bool} {t : MempoolTransaction}

/-! ## The three branches -/

include hs in
theorem removes_orphan (ho : (w.state.orphansPool.allOrphans.lookup id).isSome) (removeRedeemers : Bool) :
    ∃ w', Converges (fun n => removeTransaction S n id removeRedeemers) w (.ok (), w') ∧
      w.state.Removes (fun x => ∃ b, w.state.orphansPool.Taken id true b ∧ b.id = x) w'.state := by
  obtain ⟨op, hexec, -, hop⟩ := exec_removeOrphan id true w.state.orphansPool hs.orphans
  refine ⟨{ w with state := { w.state with orphansPool := op } }, ⟨0, fun n _ => ?_⟩, ?_⟩
  · change exec (if (w.state.orphansPool.allOrphans.lookup id).isSome then _ else _) w = _
    rw [if_pos ho, exec_onOrphans, hexec]
  have hremoves := hs.removes (fun _ => False) { w.state with orphansPool := op } (by simp) hop
    fun _ => hs.has_of_taken
  simpa using hremoves

theorem exec_removeTransaction_absent {n : ℕ} (ho : w.state.orphansPool.allOrphans.lookup id = none)
    (ht : w.state.transactionsPool.allTransactions.lookup id = none) :
    exec (removeTransaction S n id removeRedeemers) w = (.ok (), w) := by
  have hget : exec getState w = (.ok w.state, w) := rfl
  unfold removeTransaction
  rw [exec_bind_ok hget]
  simp only [ho, isSome_none, Bool.false_eq_true, if_false, ht]
  rfl

variable (ho : w.state.orphansPool.allOrphans.lookup id = none)
    (ht : w.state.transactionsPool.allTransactions.lookup id = some t)

include ho ht

theorem exec_removeTransaction_pool {n : ℕ} {redeemers : List MempoolTransaction}
    (hr : w.state.transactionsPool.getRedeemers n t = some redeemers) :
    exec (removeTransaction S n id removeRedeemers) w = exec (if removeRedeemers then do
        (t :: redeemers).forM (removeTransactionFromSets S true)
        onOrphans (OrphansPool.removeRedeemersOf t.transaction.content)
      else do
        redeemers.forM (removeParentTransactionInPool id)
        removeTransactionFromSets S false t) w := by
  unfold removeTransaction
  rw [exec_bind]
  have hget : exec getState w = (.ok w.state, w) := rfl
  simp only [hget, ho, isSome_none, Bool.false_eq_true, if_false, ht, hr]

include hs in
/-- With its redeemers: the members of the pool, and the orphans below them. -/
theorem removes_redeemers : ∃ w', Converges (fun n => removeTransaction S n id true) w (.ok (), w') ∧
      w.state.Removes (fun x => ∃ r, w.state.Led t r ∧
        ((w.state.transactionsPool.allTransactions.lookup x).isSome ∧ r.id = x ∨
          ∃ b, w.state.orphansPool.Below r.transaction.content b ∧ b.id = x)) w'.state := by
  obtain ⟨N, redeemers, hN⟩ := hs.getRedeemers_ends t
  have hled : ∀ r, r ∈ t :: redeemers ↔ w.state.Led t r := fun r => by
    have hwalk := hN N le_rfl
    unfold TransactionsPool.getRedeemers at hwalk
    rw [TransactionsPool.getRedeemersLoop_eq_walk] at hwalk
    rw [List.mem_cons, (StackWalk.walk_root hwalk).2 r, State.Led]
  obtain ⟨w₁, hloop, hpool, horphans⟩ := exec_forM_removeTransactionFromSets (t :: redeemers) hs fun r hr =>
    (List.mem_cons.mp hr).elim (fun h => h ▸ hs.paid ht) (hs.paid_redeemers (hN N le_rfl))
  obtain ⟨op₁, hexec₁, hop₁⟩ := exec_forM_removeRedeemersOf (t :: redeemers) w.state.orphansPool hs.orphans
  obtain rfl : op₁ = w₁.state.orphansPool := (Prod.mk.inj (hexec₁.symm.trans horphans)).2
  -- The last call finds nothing more.
  obtain ⟨op₂, hexec₂, hop₂⟩ := exec_removeRedeemersOf t.transaction.content _ hop₁.indexed
  have hboth : w.state.orphansPool.Without
      (fun b => ∃ r, w.state.Led t r ∧ w.state.orphansPool.Below r.transaction.content b) op₂ := by
    refine (hop₁.trans hop₂).congr hs.orphans fun b _ => ⟨?_, ?_⟩
    · rintro (⟨r, hr, hb⟩ | hb)
      · exact ⟨r, (hled r).mp hr, hb⟩
      · exact ⟨t, .inl rfl, Relation.TransGen.mono hop₁.funded_le _ _ hb⟩
    · rintro ⟨r, hr, hb⟩
      exact .inl ⟨r, (hled r).mpr hr, hb⟩
  refine ⟨{ w₁ with state := { w₁.state with orphansPool := op₂ } }, ⟨N, fun n hn => ?_⟩, ?_⟩
  · rw [exec_removeTransaction_pool ho ht (hN n hn), if_pos rfl, exec_bind_ok hloop, exec_onOrphans, hexec₂]
  have hhas : ∀ b, (∃ r, w.state.Led t r ∧ w.state.orphansPool.Below r.transaction.content b) →
      w.state.orphansPool.Has b := by
    rintro b ⟨r, -, hb⟩
    exact has_of_below hb
  refine (hs.removes (fun x => ∃ r, w.state.Led t r ∧ r.id = x) { w₁.state with orphansPool := op₂ }
    (fun x y => ?_) hboth hhas).iff.mpr fun x _ => ⟨?_, ?_⟩
  · rw [hpool]
    simp only [hled, not_exists, not_and, ne_eq]
  · rintro (⟨hin, r, hr, hx⟩ | ⟨b, ⟨r, hr, hb⟩, hx⟩)
    · exact ⟨r, hr, .inl ⟨hin, hx⟩⟩
    · exact ⟨r, hr, .inr ⟨b, hb, hx⟩⟩
  rintro ⟨r, hr, ⟨hin, hx⟩ | ⟨b, hb, hx⟩⟩
  · exact .inl ⟨hin, r, hr, hx⟩
  · exact .inr ⟨b, ⟨r, hr, hb⟩, hx⟩

omit ho ht

theorem leads_removeTransactionFromSets (t : MempoolTransaction) :
    Leads (fun w => w.state.transactionsPool = s.transactionsPool ∧ w.state.orphansPool = s.orphansPool)
      (fun w => w.state.transactionsPool.allTransactions = s.transactionsPool.allTransactions.erase t.id ∧
        w.state.orphansPool = s.orphansPool) (removeTransactionFromSets S false t) := by
  rintro w ⟨htp, hop⟩
  have hclear : Keeps (fun w : World =>
      w.state.transactionsPool.allTransactions = s.transactionsPool.allTransactions.erase t.id ∧
        w.state.orphansPool = s.orphansPool) (clearOrphanInputs t.transaction.content) := by
    refine keeps_forM fun i _ => keeps_getState_bind fun w hw => ?_
    split
    · exact hw
    · exact hw
  have hunregistered : (w.state.unregistered S t).transactionsPool.allTransactions =
      s.transactionsPool.allTransactions.erase t.id := by
    rw [← htp]
    exact removeTransaction_all S w.state.heap w.state.transactionsPool t
  exact ((keeps_ofExcept _).bind fun _ => hclear) { w with
    state := w.state.unregistered S t
    indexWrites := ⟨t, w.state⟩ :: w.indexWrites } ⟨hunregistered, hop⟩

include hs

include ho in
theorem removes_alone : ∃ w', Converges (fun n => removeTransaction S n id false) w (.ok (), w') ∧
      w.state.Removes (fun x => x = id) w'.state := by
  obtain ⟨⟨e | ⟨⟩, w'⟩, ⟨N, hN⟩, hends⟩ :=
    total_removeTransaction (E := fun _ _ => False) hs id false w rfl
  · exact hends.elim
  refine ⟨w', ⟨N, hN⟩, ?_⟩
  suffices h : (∀ x, w'.state.transactionsPool.allTransactions.lookup x =
      (w.state.transactionsPool.allTransactions.erase id).lookup x) ∧
      w'.state.orphansPool = w.state.orphansPool by
    refine ⟨fun x t => ?_, fun x o => ?_⟩
    · rw [h.1, GoMap.lookup_delete]
      by_cases hx : x = id <;> simp [hx]
    rw [h.2]
    refine ⟨fun hx => ⟨hx, ?_⟩, And.left⟩
    rintro rfl
    exact absurd ho (by simp [hx])
  cases ht : w.state.transactionsPool.allTransactions.lookup id with
  | none =>
    obtain rfl : w = w' := (Prod.mk.inj ((exec_removeTransaction_absent ho ht).symm.trans (hN N le_rfl))).2
    refine ⟨fun x => ?_, rfl⟩
    rw [GoMap.lookup_delete]
    by_cases hx : x = id
    · rw [if_pos hx, hx, ht]
    · rw [if_neg hx]
  | some t =>
    obtain ⟨M, redeemers, hM⟩ := hs.getRedeemers_ends t
    have hrun := hN (max N M) (le_max_left N M)
    rw [exec_removeTransaction_pool ho ht (hM _ (le_max_right N M)), if_neg (by simp)] at hrun
    obtain ⟨_, w₁, hparents, hrun⟩ := exec_bind_eq_ok hrun
    have hkeeps : Keeps (fun w₁ : World => w₁.state.transactionsPool = w.state.transactionsPool ∧
        w₁.state.orphansPool = w.state.orphansPool) (redeemers.forM (removeParentTransactionInPool id)) :=
      keeps_forM fun _ _ _ h => h
    obtain ⟨hpool, horphans⟩ := (leads_removeTransactionFromSets t).of_exec (hkeeps.of_exec ⟨rfl, rfl⟩ hparents) hrun
    exact ⟨fun x => by rw [hpool, hs.key ht], horphans⟩

theorem removes_reached (id : DomainTransactionID) :
    ∃ w', Converges (fun n => removeTransaction S n id true) w (.ok (), w') ∧
      w.state.Removes (w.state.Reached id) w'.state := by
  cases ho : w.state.orphansPool.allOrphans.lookup id with
  | some o =>
    obtain ⟨w', hrun, hremoves⟩ := removes_orphan hs (isSome_of_mem ho) true
    refine ⟨w', hrun, hremoves.iff.mpr fun x _ => ⟨.inl, ?_⟩⟩
    rintro (h | ⟨hnone, -⟩)
    · exact h
    · cases ho.symm.trans hnone
  | none =>
    have hreached : ∀ x, w.state.Reached id x ↔
        ∃ t, w.state.transactionsPool.allTransactions.lookup id = some t ∧ ∃ r, w.state.Led t r ∧
          ((w.state.transactionsPool.allTransactions.lookup x).isSome ∧ r.id = x ∨
            ∃ b, w.state.orphansPool.Below r.transaction.content b ∧ b.id = x) := fun x => by
      simp [State.Reached, OrphansPool.Taken, ho]
    cases ht : w.state.transactionsPool.allTransactions.lookup id with
    | some t =>
      obtain ⟨w', hrun, hremoves⟩ := removes_redeemers hs ho ht
      refine ⟨w', hrun, hremoves.iff.mpr fun x _ => ?_⟩
      rw [hreached]
      simp [ht]
    | none =>
      refine ⟨w, ⟨0, fun n _ => exec_removeTransaction_absent ho ht⟩, ⟨fun x t => ?_, fun x o => ?_⟩⟩
      · simp [hreached, ht]
      · simp [hreached, ht]

theorem removes_alone_iff (id : DomainTransactionID) :
    ∃ w', Converges (fun n => removeTransaction S n id false) w (.ok (), w') ∧
      (w.state.Removes (fun x => x = id) w'.state ↔ ∀ o, w.state.orphansPool.allOrphans.lookup id = some o →
          ∀ b, ¬ w.state.orphansPool.Funded o.transaction.content b) := by
  cases ho : w.state.orphansPool.allOrphans.lookup id with
  | none =>
    obtain ⟨w', hrun, hremoves⟩ := removes_alone hs ho
    exact ⟨w', hrun, fun _ => nofun, fun _ => hremoves⟩
  | some o =>
    obtain ⟨w', hrun, hremoves⟩ := removes_orphan hs (isSome_of_mem ho) false
    refine ⟨w', hrun, hremoves.iff.trans ⟨?_, ?_⟩⟩
    · rintro heq _ ⟨⟩ b hb
      obtain ⟨o', ho', rfl⟩ := hb.1
      -- The redeemer is taken as well, so it would have to be the orphan itself.
      have hid := (heq _ (.inr (by simp [ho']))).mp ⟨_, ⟨o, ho, .inr ⟨rfl, .single hb⟩⟩, rfl⟩
      obtain ⟨i, -, hspends⟩ := hb.2
      have hdepth := (hs.orphanObjects ho').admitted.depth _ hspends
      have hkey : o.transaction.content.id = id := hs.orphans.key ho
      simp only [DomainTransaction.outpoint, hkey, hid, lt_self_iff_false] at hdepth
    · intro hnone x _
      have hbelow : ∀ b, ¬ w.state.orphansPool.Below o.transaction.content b := fun b hb => by
        obtain ⟨c, hf, -⟩ := Relation.TransGen.head'_iff.mp hb
        exact hnone o rfl c hf
      have hkey : o.transaction.content.id = id := hs.orphans.key ho
      simp [OrphansPool.Taken, ho, hbelow, hkey, eq_comm]

omit hs

theorem twoSubmitted_linked : twoSubmitted.state.FamilyLinked 1 where
  listed x hx _ hin := by
    have hkeys : twoSubmitted.state.transactionsPool.allTransactions.keys = [2, 1] := by decide +kernel
    have hmem : x ∈ [2, 1] := hkeys ▸ AList.mem_keys.mp (AList.lookup_isSome.mp hin)
    obtain rfl | rfl : x = 2 ∨ x = 1 := by simpa using hmem
    · refine ⟨1, _, .inl rfl, show _ = some [⟨3, ⟨2, sampleTransaction 2 [⟨1, 0⟩]⟩, false, 100⟩] by decide +kernel,
        _, List.mem_singleton_self _, rfl⟩
    · exact absurd rfl hx
  stale y l z b _ _ _ _ hb := by
    have hnone : twoSubmitted.state.orphansPool.allOrphans.keys = [] := by decide +kernel
    obtain ⟨o, ho, -⟩ := hb.1
    have hmem := AList.mem_keys.mp (AList.lookup_isSome.mp (isSome_of_mem ho))
    rw [hnone] at hmem
    cases hmem

def twoOrphans : World := runOps chainSetup [submitOrphan 3 [⟨2, 0⟩], submitOrphan 2 [⟨1, 0⟩]] World.new

end Kaspad.Mempool
